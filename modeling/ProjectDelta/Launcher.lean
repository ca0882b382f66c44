import ProjectDelta.Machine

/-!
# The launcher and its game module

`Game::load` makes a shadow copy of the module and then loads the file it was made
from. A failed reload leaves the loop with whatever pointers it got to, and the
call of `shutdownFn` behind the loop goes through one of them. The answers of the
file system and of the loader come with the moves, as do the reload signals.
-/

namespace ProjectDelta

/-- `Game::MODULE_SHADOW_COPY`. A path is taken to have an extension, as `LoadLibrary` appends one where
there is none and would then open another file than the one that was copied. -/
def moduleShadowCopy : String := "running_game.dll"

/-- A module in the process: the path that `LOAD_LIB` was given, and in which call of `load`. -/
structure LoadedModule where
  path : String
  load : ℕ
  deriving DecidableEq

inductive GameFunction
  | onInit
  | onUpdate
  | onShutdown
  deriving DecidableEq

/-- What `LOAD_SYMB` returned. -/
structure GameSymbol where
  module : LoadedModule
  name : GameFunction
  deriving DecidableEq

/-- `loads` counts the calls of `load`, and `shadowCopy` is the one that made the present copy. -/
structure Game where
  modulePath : String
  module : Option LoadedModule
  initFn : Option GameSymbol
  updateFn : Option GameSymbol
  shutdownFn : Option GameSymbol
  loads : ℕ
  shadowCopy : Option ℕ

/-- How the steps of a load go: `moduleExists` is `none` when `fs::exists` throws, and `copied` is
false when `fs::copy` does. -/
structure LoadOutcome where
  moduleExists : Option Bool
  copied : Bool
  library : Bool
  initSymbol : Bool
  updateSymbol : Bool
  shutdownSymbol : Bool

namespace Game

def new (modulePath : String) : Game := ⟨modulePath, none, none, none, none, 0, none⟩

/-- `loadSymbol` -/
def loadSymbol (found : Bool) (name : GameFunction) (lib : LoadedModule) : Option GameSymbol :=
  if found then some ⟨lib, name⟩ else none

/-- From `LOAD_LIB` on. -/
def loadLibrary (game : Game) (o : LoadOutcome) : Game × Bool :=
  if o.library then
    let module : LoadedModule := ⟨game.modulePath, game.loads⟩
    ({ game with
        module := some module
        initFn := loadSymbol o.initSymbol .onInit module
        updateFn := loadSymbol o.updateSymbol .onUpdate module
        shutdownFn := loadSymbol o.shutdownSymbol .onShutdown module },
      o.initSymbol && o.updateSymbol && o.shutdownSymbol)
  else ({ game with module := none }, false)

/-- `fs::copy` throws as well when both paths are those of one file. -/
def load (game : Game) (o : LoadOutcome) : Game × Bool :=
  let game := { game with loads := game.loads + 1 }
  if o.moduleExists = some true then
    if o.copied ∧ game.modulePath ≠ moduleShadowCopy then
      { game with shadowCopy := some game.loads }.loadLibrary o
    else (game, false)
  else (game, false)

def unload (game : Game) : Game :=
  { game with module := none, initFn := none, updateFn := none, shutdownFn := none }

def reload (game : Game) (o : LoadOutcome) : Game × Bool := game.unload.load o

end Game

/-- A call that `main` makes: the pointer, and the module and the shadow copy at that moment. -/
structure GameCall where
  name : GameFunction
  pointer : Option GameSymbol
  module : Option LoadedModule
  shadowCopy : Option ℕ

namespace GameCall

/-- The pointer is not null and was resolved from the module that is loaded. -/
def Live (call : GameCall) : Prop :=
  ∃ module, call.module = some module ∧ call.pointer = some ⟨module, call.name⟩

/-- The module is the shadow copy that its own load made. -/
def OfShadowCopy (call : GameCall) : Prop :=
  ∃ module, call.module = some module ∧ module.path = moduleShadowCopy ∧
    call.shadowCopy = some module.load

end GameCall

/-- Program points of `main` behind the first load. -/
inductive LauncherPc
  | init
  | loop
  | shutdown
  | returned
  | crashed
  deriving DecidableEq

/-- `reloads` and `calls` tell what has happened so far, the newest first. -/
structure Launcher where
  game : Game
  pc : LauncherPc
  reloads : List LoadOutcome
  calls : List GameCall

/-- In the loop, `leave` is for `isRunning` being false, `reload` for a signal and `update` for
none. -/
inductive LauncherMove
  | callInit
  | leave
  | reload (o : LoadOutcome)
  | update
  | callShutdown

namespace Launcher

/-- The first load. -/
def start (modulePath : String) (o : LoadOutcome) : Option Launcher :=
  let r := (Game.new modulePath).load o
  if r.2 then some ⟨r.1, .init, [], []⟩ else none

/-- A call through a null pointer is the end. -/
def call (s : Launcher) (name : GameFunction) (pointer : Option GameSymbol) (pc : LauncherPc) :
    Launcher :=
  { s with
    pc := if pointer.isSome then pc else .crashed
    calls := ⟨name, pointer, s.game.module, s.game.shadowCopy⟩ :: s.calls }

def machine : Machine Launcher LauncherMove where
  next s move := match s.pc, move with
    | .init, .callInit => some (s.call .onInit s.game.initFn .loop)
    | .loop, .leave => some { s with pc := .shutdown }
    | .loop, .reload o =>
        let r := s.game.reload o
        some { s with
          game := r.1
          pc := if r.2 then .loop else .shutdown
          reloads := o :: s.reloads }
    | .loop, .update => some (s.call .onUpdate s.game.updateFn .loop)
    | .shutdown, .callShutdown => some (s.call .onShutdown s.game.shutdownFn .returned)
    | _, _ => none

end Launcher

/-! ### What a load leaves behind -/

/-- The load gets as far as finding `Game_OnShutdown`. -/
def LoadOutcome.FindsShutdown (o : LoadOutcome) : Prop :=
  o.moduleExists = some true ∧ o.copied = true ∧ o.library = true ∧ o.shutdownSymbol = true

namespace Game

variable {game : Game} {o : LoadOutcome}

/-- Every pointer is one of the loaded module. -/
structure Complete (game : Game) : Prop where
  init : ∃ module, game.module = some module ∧ game.initFn = some ⟨module, .onInit⟩
  update : ∃ module, game.module = some module ∧ game.updateFn = some ⟨module, .onUpdate⟩
  shutdown : ∃ module, game.module = some module ∧ game.shutdownFn = some ⟨module, .onShutdown⟩

/-- What is loaded is the file at the path, which is not that of the shadow copy. -/
structure FromPath (modulePath : String) (game : Game) : Prop where
  path : game.modulePath = modulePath
  module : ∀ module, game.module = some module → module.path = modulePath

theorem loadLibrary_complete (h : (game.loadLibrary o).2 = true) :
    (game.loadLibrary o).1.Complete := by
  unfold loadLibrary at h ⊢
  split_ifs at h ⊢ with hlibrary
  simp only [Bool.and_eq_true] at h
  obtain ⟨⟨hinit, hupdate⟩, hshutdown⟩ := h
  exact ⟨⟨_, rfl, if_pos hinit⟩, ⟨_, rfl, if_pos hupdate⟩, ⟨_, rfl, if_pos hshutdown⟩⟩

theorem loadLibrary_shutdownFn (hlibrary : o.library = true) (hsymbol : o.shutdownSymbol = true) :
    ∃ module, (game.loadLibrary o).1.module = some module ∧
      (game.loadLibrary o).1.shutdownFn = some ⟨module, .onShutdown⟩ := by
  unfold loadLibrary
  rw [if_pos hlibrary]
  exact ⟨_, rfl, if_pos hsymbol⟩

theorem loadLibrary_shutdownFn_none (hnone : game.shutdownFn = none)
    (h : ¬ (o.library = true ∧ o.shutdownSymbol = true)) :
    (game.loadLibrary o).1.shutdownFn = none := by
  unfold loadLibrary
  split_ifs with hlibrary
  · exact if_neg fun hsymbol => h ⟨hlibrary, hsymbol⟩
  · exact hnone

theorem loadLibrary_fromPath {modulePath : String} (h : game.modulePath = modulePath) :
    (game.loadLibrary o).1.FromPath modulePath := by
  unfold loadLibrary
  split_ifs
  · refine ⟨h, fun module hmodule => ?_⟩
    obtain rfl := Option.some.inj hmodule
    exact h
  · refine ⟨h, fun module hmodule => ?_⟩
    cases hmodule

/-- A load gets to `LOAD_LIB`, or leaves everything but the count as it was. -/
theorem load_cases (game : Game) (o : LoadOutcome) :
    (o.moduleExists = some true ∧ o.copied = true ∧ game.modulePath ≠ moduleShadowCopy) ∧
        game.load o = { game with
          loads := game.loads + 1
          shadowCopy := some (game.loads + 1) }.loadLibrary o ∨
      ¬ (o.moduleExists = some true ∧ o.copied = true ∧ game.modulePath ≠ moduleShadowCopy) ∧
        game.load o = ({ game with loads := game.loads + 1 }, false) := by
  unfold load
  simp only
  split_ifs with hexists hcopy
  · exact .inl ⟨⟨hexists, hcopy⟩, rfl⟩
  · exact .inr ⟨fun h => hcopy h.2, rfl⟩
  · exact .inr ⟨fun h => hexists h.1, rfl⟩

theorem load_complete (h : (game.load o).2 = true) :
    (game.load o).1.Complete ∧ game.modulePath ≠ moduleShadowCopy := by
  rcases load_cases game o with ⟨hcopied, heq⟩ | ⟨-, heq⟩ <;> rw [heq] at h ⊢
  · exact ⟨loadLibrary_complete h, hcopied.2.2⟩
  · cases h

theorem load_findsShutdown (h : (game.load o).2 = true) : o.FindsShutdown := by
  rcases load_cases game o with ⟨hcopied, heq⟩ | ⟨-, heq⟩ <;> rw [heq] at h
  · unfold loadLibrary at h
    split_ifs at h with hlibrary
    exact ⟨hcopied.1, hcopied.2.1, hlibrary, (Bool.and_eq_true_iff.mp h).2⟩
  · cases h

/-- Wherever a load stops, the pointer that is called behind the loop is good or null. -/
theorem load_shutdownFn (hpath : game.modulePath ≠ moduleShadowCopy) (h : o.FindsShutdown) :
    ∃ module, (game.load o).1.module = some module ∧
      (game.load o).1.shutdownFn = some ⟨module, .onShutdown⟩ := by
  obtain ⟨hexists, hcopied, hlibrary, hsymbol⟩ := h
  rcases load_cases game o with ⟨-, heq⟩ | ⟨hstops, -⟩
  · rw [heq]
    exact loadLibrary_shutdownFn hlibrary hsymbol
  · exact absurd ⟨hexists, hcopied, hpath⟩ hstops

theorem load_shutdownFn_none (hnone : game.shutdownFn = none) (h : ¬ o.FindsShutdown) :
    (game.load o).1.shutdownFn = none := by
  rcases load_cases game o with ⟨hcopied, heq⟩ | ⟨-, heq⟩ <;> rw [heq]
  · exact loadLibrary_shutdownFn_none hnone fun hfound => h ⟨hcopied.1, hcopied.2.1, hfound⟩
  · exact hnone

theorem load_fromPath {modulePath : String} (h : game.FromPath modulePath) :
    (game.load o).1.FromPath modulePath := by
  rcases load_cases game o with ⟨-, heq⟩ | ⟨-, heq⟩ <;> rw [heq]
  · exact loadLibrary_fromPath h.path
  · exact ⟨h.path, h.module⟩

theorem reload_fromPath {modulePath : String} (h : game.FromPath modulePath) :
    (game.reload o).1.FromPath modulePath := by
  have hunload : game.unload.FromPath modulePath := ⟨h.path, fun _ hmodule => by cases hmodule⟩
  exact load_fromPath hunload

theorem reload_shutdownFn (hpath : game.modulePath ≠ moduleShadowCopy) (h : o.FindsShutdown) :
    ∃ module, (game.reload o).1.module = some module ∧
      (game.reload o).1.shutdownFn = some ⟨module, .onShutdown⟩ := by
  have hunload : game.unload.modulePath ≠ moduleShadowCopy := hpath
  exact load_shutdownFn hunload h

theorem reload_shutdownFn_none (h : ¬ o.FindsShutdown) :
    (game.reload o).1.shutdownFn = none := by
  have hunload : game.unload.shutdownFn = none := rfl
  exact load_shutdownFn_none hunload h

end Game

/-! ### Runs -/

namespace Launcher

/-- Where `main` can be: in a game with all its pointers, behind the loop with a good `shutdownFn`,
behind it with a null one, or past the call through that. -/
inductive Phase (s : Launcher) : Prop
  | running (hpc : s.pc = .init ∨ s.pc = .loop) (hgame : s.game.Complete)
      (hreloads : ∀ o ∈ s.reloads, o.FindsShutdown) (hcalls : ∀ call ∈ s.calls, call.Live)
  | leaving (hpc : s.pc = .shutdown ∨ s.pc = .returned)
      (hgame : ∃ module, s.game.module = some module ∧
        s.game.shutdownFn = some ⟨module, .onShutdown⟩)
      (hreloads : ∀ o ∈ s.reloads, o.FindsShutdown) (hcalls : ∀ call ∈ s.calls, call.Live)
  | lost (hpc : s.pc = .shutdown) (hgame : s.game.shutdownFn = none)
      (hreloads : ¬ ∀ o ∈ s.reloads, o.FindsShutdown) (hcalls : ∀ call ∈ s.calls, call.Live)
  | crashed (hpc : s.pc = .crashed) (hreloads : ¬ ∀ o ∈ s.reloads, o.FindsShutdown)
      (hcalls : ¬ ∀ call ∈ s.calls, call.Live)

/-- No call has gone into the shadow copy. -/
structure OffShadowCopy (modulePath : String) (s : Launcher) : Prop where
  ne : modulePath ≠ moduleShadowCopy
  game : s.game.FromPath modulePath
  calls : ∀ call ∈ s.calls, ¬ call.OfShadowCopy

/-- What a move of `main` does. -/
inductive Step (s : Launcher) : LauncherMove → Launcher → Prop
  | callInit (h : s.pc = .init) : Step s .callInit (s.call .onInit s.game.initFn .loop)
  | leave (h : s.pc = .loop) : Step s .leave { s with pc := .shutdown }
  | reload (o : LoadOutcome) (h : s.pc = .loop) (hloaded : (s.game.reload o).2 = true) :
      Step s (.reload o)
        { s with game := (s.game.reload o).1, pc := .loop, reloads := o :: s.reloads }
  | reloadFails (o : LoadOutcome) (h : s.pc = .loop) (hfailed : (s.game.reload o).2 = false) :
      Step s (.reload o)
        { s with game := (s.game.reload o).1, pc := .shutdown, reloads := o :: s.reloads }
  | update (h : s.pc = .loop) : Step s .update (s.call .onUpdate s.game.updateFn .loop)
  | callShutdown (h : s.pc = .shutdown) :
      Step s .callShutdown (s.call .onShutdown s.game.shutdownFn .returned)

variable {modulePath : String} {first : LoadOutcome} {s₀ s s' : Launcher} {move : LauncherMove}

theorem next_step (h : machine.next s move = some s') : Step s move s' := by
  simp only [machine] at h
  split at h <;> rename_i hpc
  · obtain rfl := Option.some.inj h
    exact .callInit hpc
  · obtain rfl := Option.some.inj h
    exact .leave hpc
  · rename_i o
    obtain rfl := Option.some.inj h
    cases hloaded : (s.game.reload o).2 with
    | true =>
        rw [if_pos rfl]
        exact .reload o hpc hloaded
    | false =>
        rw [if_neg Bool.false_ne_true]
        exact .reloadFails o hpc hloaded
  · obtain rfl := Option.some.inj h
    exact .update hpc
  · obtain rfl := Option.some.inj h
    exact .callShutdown hpc
  · cases h

theorem call_live {name : GameFunction} {pointer : Option GameSymbol} (pc : LauncherPc)
    (h : ∃ module, s.game.module = some module ∧ pointer = some ⟨module, name⟩)
    (hcalls : ∀ call ∈ s.calls, call.Live) :
    (s.call name pointer pc).pc = pc ∧ ∀ call ∈ (s.call name pointer pc).calls, call.Live := by
  obtain ⟨module, hmodule, rfl⟩ := h
  refine ⟨rfl, fun call hcall => ?_⟩
  rcases List.mem_cons.mp hcall with rfl | hcall
  · exact ⟨module, hmodule, rfl⟩
  · exact hcalls call hcall

theorem Phase.inGame (hs : s.Phase) (hpc : s.pc = .init ∨ s.pc = .loop) :
    s.game.Complete ∧ (∀ o ∈ s.reloads, o.FindsShutdown) ∧ ∀ call ∈ s.calls, call.Live := by
  cases hs with
  | running _ hgame hreloads hcalls => exact ⟨hgame, hreloads, hcalls⟩
  | leaving hpc' | lost hpc' | crashed hpc' =>
      rcases hpc with hpc | hpc <;> simp [hpc] at hpc'

theorem Phase.step (hpath : s.game.modulePath ≠ moduleShadowCopy) (hs : s.Phase)
    (h : Step s move s') : s'.Phase := by
  cases h with
  | callInit hpc =>
      obtain ⟨hgame, hreloads, hcalls⟩ := hs.inGame (.inl hpc)
      obtain ⟨hpc', hcalls'⟩ := call_live .loop hgame.init hcalls
      exact .running (.inr hpc') hgame hreloads hcalls'
  | update hpc =>
      obtain ⟨hgame, hreloads, hcalls⟩ := hs.inGame (.inr hpc)
      obtain ⟨hpc', hcalls'⟩ := call_live .loop hgame.update hcalls
      exact .running (.inr hpc') hgame hreloads hcalls'
  | leave hpc =>
      obtain ⟨hgame, hreloads, hcalls⟩ := hs.inGame (.inr hpc)
      exact .leaving (.inl rfl) hgame.shutdown hreloads hcalls
  | reload o hpc hloaded =>
      obtain ⟨-, hreloads, hcalls⟩ := hs.inGame (.inr hpc)
      refine .running (.inr rfl) (Game.load_complete hloaded).1 ?_ hcalls
      exact List.forall_mem_cons.mpr ⟨Game.load_findsShutdown hloaded, hreloads⟩
  | reloadFails o hpc hfailed =>
      obtain ⟨-, hreloads, hcalls⟩ := hs.inGame (.inr hpc)
      -- The loop is left with what this reload has found so far.
      by_cases hfinds : o.FindsShutdown
      · refine .leaving (.inl rfl) (Game.reload_shutdownFn hpath hfinds) ?_ hcalls
        exact List.forall_mem_cons.mpr ⟨hfinds, hreloads⟩
      · refine .lost rfl (Game.reload_shutdownFn_none hfinds) ?_ hcalls
        exact fun hall => hfinds (hall o (List.mem_cons_self ..))
  | callShutdown hpc =>
      cases hs with
      | running hpc' => simp [hpc] at hpc'
      | leaving _ hgame hreloads hcalls =>
          obtain ⟨hpc', hcalls'⟩ := call_live .returned hgame hcalls
          exact .leaving (.inr hpc') hgame hreloads hcalls'
      | lost _ hgame hreloads hcalls =>
          refine .crashed (by rw [call, hgame]; rfl) hreloads fun hall => ?_
          obtain ⟨module, _, hpointer⟩ := hall _ (List.mem_cons_self ..)
          rw [hgame] at hpointer
          cases hpointer
      | crashed hpc' => simp [hpc] at hpc'

theorem OffShadowCopy.call {name : GameFunction} {pointer : Option GameSymbol} {pc : LauncherPc}
    (hs : s.OffShadowCopy modulePath) : (s.call name pointer pc).OffShadowCopy modulePath := by
  refine ⟨hs.ne, hs.game, fun call hcall => ?_⟩
  rcases List.mem_cons.mp hcall with rfl | hcall
  · rintro ⟨module, hmodule, hcopy, -⟩
    exact hs.ne ((hs.game.module module hmodule).symm.trans hcopy)
  · exact hs.calls call hcall

theorem OffShadowCopy.step (hs : s.OffShadowCopy modulePath) (h : Step s move s') :
    s'.OffShadowCopy modulePath := by
  cases h with
  | callInit | update | callShutdown => exact hs.call
  | leave => exact ⟨hs.ne, hs.game, hs.calls⟩
  | reload | reloadFails => exact ⟨hs.ne, Game.reload_fromPath hs.game, hs.calls⟩

/-- The first thing `main` does with a game is a call. -/
theorem Step.called (hpc : s₀.pc = .init) (hs : s = s₀ ∨ s.calls ≠ []) (h : Step s move s') :
    s' = s₀ ∨ s'.calls ≠ [] := by
  refine .inr ?_
  cases h with
  | callInit | update | callShutdown => exact List.cons_ne_nil _ _
  | leave hloop | reload _ hloop | reloadFails _ hloop =>
      rcases hs with rfl | hcalls
      · simp [hpc] at hloop
      · exact hcalls

theorem start_spec (h : start modulePath first = some s₀) :
    s₀.pc = .init ∧ s₀.Phase ∧ s₀.OffShadowCopy modulePath := by
  unfold start at h
  simp only at h
  split_ifs at h with hloaded
  obtain rfl := Option.some.inj h
  obtain ⟨hgame, hpath⟩ := Game.load_complete hloaded
  refine ⟨rfl, .running (.inl rfl) hgame (by simp) (by simp), hpath, ?_, by simp⟩
  exact Game.load_fromPath ⟨rfl, fun _ hmodule => by cases hmodule⟩

theorem reach_spec (h₀ : start modulePath first = some s₀) (h : machine.Reach s₀ s) :
    s.Phase ∧ s.OffShadowCopy modulePath ∧ (s = s₀ ∨ s.calls ≠ []) := by
  obtain ⟨hpc, hphase, hoff⟩ := start_spec h₀
  refine Machine.ReachIf.invariant
    (I := fun s => s.Phase ∧ s.OffShadowCopy modulePath ∧ (s = s₀ ∨ s.calls ≠ []))
    (fun a move b ha _ hn => ?_) h ⟨hphase, hoff, .inl rfl⟩
  obtain ⟨ha1, ha2, ha3⟩ := ha
  have hstep := next_step hn
  refine ⟨ha1.step ?_ hstep, ha2.step hstep, hstep.called hpc ha3⟩
  rw [ha2.game.path]
  exact ha2.ne

/-- From its first call on, `main` calls into the file at the path and not into the copy of it. Apart
from that its calls are good as long as each reload gets to `Game_OnShutdown`, and at the end of
`main` only then. -/
theorem calls_live_iff (h₀ : start modulePath first = some s₀) (h : machine.Reach s₀ s) :
    (s = s₀ ∨ ¬ ∀ call ∈ s.calls, call.Live ∧ call.OfShadowCopy) ∧
    ((∀ o ∈ s.reloads, o.FindsShutdown) → ∀ call ∈ s.calls, call.Live) ∧
    (s.pc = .returned ∨ s.pc = .crashed →
      (∀ call ∈ s.calls, call.Live) → ∀ o ∈ s.reloads, o.FindsShutdown) := by
  obtain ⟨hphase, hoff, hcalled⟩ := reach_spec h₀ h
  refine ⟨?_, ?_⟩
  · refine hcalled.imp_right fun hne hall => ?_
    obtain ⟨call, hcall⟩ := List.exists_mem_of_ne_nil _ hne
    exact hoff.calls call hcall (hall call hcall).2
  cases hphase with
  | running _ _ hreloads hcalls => exact ⟨fun _ => hcalls, fun _ _ => hreloads⟩
  | leaving _ _ hreloads hcalls => exact ⟨fun _ => hcalls, fun _ _ => hreloads⟩
  | lost hpc _ hreloads hcalls =>
      refine ⟨fun _ => hcalls, fun hended => ?_⟩
      simp [hpc] at hended
  | crashed _ hreloads hcalls =>
      exact ⟨fun hall => absurd hall hreloads, fun _ hall => absurd hall hcalls⟩

/-- The load that goes well. -/
def goodLoad : LoadOutcome := ⟨some true, true, true, true, true, true⟩

/-- A reload between two updates, and a game that then ends. -/
def reloadOnce : List LauncherMove :=
  [.callInit, .update, .reload goodLoad, .update, .leave, .callShutdown]

theorem calls_live_reload : ∃ s₀ s, start "game.dll" goodLoad = some s₀ ∧
    machine.exec s₀ reloadOnce = some s ∧ s.pc = .returned ∧ s.calls.length = 4 ∧
    (s = s₀ ∨ ¬ ∀ call ∈ s.calls, call.Live ∧ call.OfShadowCopy) ∧
    ((∀ o ∈ s.reloads, o.FindsShutdown) → ∀ call ∈ s.calls, call.Live) ∧
    (s.pc = .returned ∨ s.pc = .crashed →
      (∀ call ∈ s.calls, call.Live) → ∀ o ∈ s.reloads, o.FindsShutdown) := by
  refine ⟨_, _, rfl, rfl, rfl, rfl, ?_⟩
  have hstart : start "game.dll" goodLoad = some _ := rfl
  exact calls_live_iff hstart (Machine.reach_of_exec reloadOnce rfl)

/-- A module that is not there when the signal comes, as in the middle of a build. -/
def missingModule : LoadOutcome := ⟨some false, false, false, false, false, false⟩

/-- The first call goes into the file at the path, and the last one through a null pointer. -/
theorem missing_module_calls_null : ∃ s₀ s first last, start "game.dll" goodLoad = some s₀ ∧
    machine.exec s₀ [.callInit, .reload missingModule, .callShutdown] = some s ∧
    s.calls = [last, first] ∧ first.Live ∧ ¬ first.OfShadowCopy ∧ ¬ last.Live ∧ s.pc = .crashed := by
  refine ⟨_, _, _, _, rfl, rfl, rfl, ⟨_, rfl, rfl⟩, ?_, ?_, rfl⟩
  · rintro ⟨module, hmodule, hcopy, -⟩
    obtain rfl := Option.some.inj hmodule
    exact absurd hcopy (by decide)
  · rintro ⟨module, hmodule, -⟩
    cases hmodule

/-! ### The order of the calls -/

/-- The functions that have been called, the first one first. -/
def called (s : Launcher) : List GameFunction := (s.calls.map GameCall.name).reverse

/-- `onInit` once, then any number of updates, and `onShutdown` at most once, as the last. -/
def InOrder (s : Launcher) : Prop :=
  ∃ updates, s.called = match s.pc with
    | .init => []
    | .loop | .shutdown => .onInit :: List.replicate updates .onUpdate
    | .returned | .crashed => .onInit :: List.replicate updates .onUpdate ++ [.onShutdown]

/-- Every call through a pointer that is not null is a good one. -/
def LiveOrNull (s : Launcher) : Prop := ∀ call ∈ s.calls, call.pointer ≠ none → call.Live

/-- Which load the modules come from. -/
structure FromLoads (s : Launcher) : Prop where
  loads : s.game.loads = s.reloads.length + 1
  module : ∀ module, s.game.module = some module → module.load = s.game.loads
  calls : ∀ call ∈ s.calls, ∀ module, call.module = some module → module.load ≤ s.game.loads
  sorted : s.calls.Pairwise fun newer older =>
    ∀ module module', newer.module = some module → older.module = some module' →
      module'.load ≤ module.load
  init : ∀ call ∈ s.calls, call.name = .onInit →
    ∃ module, call.module = some module ∧ module.load = 1 ∧ call.pointer = some ⟨module, .onInit⟩

theorem called_call (s : Launcher) (name : GameFunction) (pointer : Option GameSymbol)
    (pc : LauncherPc) : (s.call name pointer pc).called = s.called ++ [name] := by
  simp only [called, call, List.map_cons, List.reverse_cons]

theorem InOrder.step (h : s.InOrder) (hphase : s.Phase) (hstep : Step s move s') : s'.InOrder := by
  obtain ⟨updates, hcalled⟩ := h
  cases hstep with
  | callInit hpc =>
      obtain ⟨module, -, hpointer⟩ := (hphase.inGame (.inl hpc)).1.init
      refine ⟨0, ?_⟩
      rw [called_call, hcalled, hpc]
      simp only [call, hpointer, Option.isSome_some, if_true, List.replicate_zero, List.nil_append]
  | update hpc =>
      obtain ⟨module, -, hpointer⟩ := (hphase.inGame (.inr hpc)).1.update
      refine ⟨updates + 1, ?_⟩
      rw [called_call, hcalled, hpc]
      simp only [call, hpointer, Option.isSome_some, if_true, List.replicate_succ', List.cons_append]
  | leave hpc | reload _ hpc | reloadFails _ hpc =>
      refine ⟨updates, ?_⟩
      rw [hpc] at hcalled
      exact hcalled
  | callShutdown hpc =>
      refine ⟨updates, ?_⟩
      rw [called_call, hcalled, hpc]
      simp only [call]
      split <;> rename_i hpc' <;> split at hpc' <;> first | rfl | cases hpc'

end Launcher

/-- A load counts, and a module that is there behind a reload comes from that load. -/
theorem Game.reload_loads (game : Game) (o : LoadOutcome) :
    (game.reload o).1.loads = game.loads + 1 ∧
      ∀ module, (game.reload o).1.module = some module → module.load = game.loads + 1 := by
  unfold Game.reload
  rcases Game.load_cases game.unload o with ⟨-, heq⟩ | ⟨-, heq⟩ <;> rw [heq]
  · unfold Game.loadLibrary
    split
    · refine ⟨rfl, fun module hmodule => ?_⟩
      obtain rfl := Option.some.inj hmodule
      rfl
    · exact ⟨rfl, fun module hmodule => by cases hmodule⟩
  · exact ⟨rfl, fun module hmodule => by cases hmodule⟩

namespace Launcher

variable {modulePath : String} {first : LoadOutcome} {s₀ s s' : Launcher} {move : LauncherMove}

theorem FromLoads.call {name : GameFunction} {pointer : Option GameSymbol} {pc : LauncherPc}
    (h : s.FromLoads) (hinit : name = .onInit →
      ∃ module, s.game.module = some module ∧ module.load = 1 ∧ pointer = some ⟨module, .onInit⟩) :
    (s.call name pointer pc).FromLoads where
  loads := h.loads
  module := h.module
  calls := List.forall_mem_cons.mpr ⟨fun module hm => Nat.le_of_eq (h.module module hm), h.calls⟩
  sorted := by
    refine List.pairwise_cons.mpr ⟨fun older hold module module' hm hm' => ?_, h.sorted⟩
    rw [h.module module hm]
    exact h.calls older hold module' hm'
  init := List.forall_mem_cons.mpr ⟨hinit, h.init⟩

theorem FromLoads.reload (h : s.FromLoads) (o : LoadOutcome) (pc : LauncherPc) :
    FromLoads { s with game := (s.game.reload o).1, pc := pc, reloads := o :: s.reloads } := by
  obtain ⟨hloads, hmodule⟩ := s.game.reload_loads o
  refine ⟨?_, fun module hm => ?_, fun call hcall module hm => ?_, h.sorted, h.init⟩
  · rw [hloads, h.loads, List.length_cons]
  · rw [hloads]
    exact hmodule module hm
  · rw [hloads]
    exact Nat.le_succ_of_le (h.calls call hcall module hm)

/-- The first call is the only one made before a reload can be. -/
theorem FromLoads.step (h : s.FromLoads) (hphase : s.Phase)
    (hreloads : s.pc = .init → s.reloads = []) (hstep : Step s move s') : s'.FromLoads := by
  cases hstep with
  | callInit hpc =>
      refine h.call fun _ => ?_
      obtain ⟨module, hmodule, hpointer⟩ := (hphase.inGame (.inl hpc)).1.init
      refine ⟨module, hmodule, ?_, hpointer⟩
      rw [h.module module hmodule, h.loads, hreloads hpc]
      rfl
  | update => exact h.call fun hname => by cases hname
  | callShutdown => exact h.call fun hname => by cases hname
  | leave => exact ⟨h.loads, h.module, h.calls, h.sorted, h.init⟩
  | reload o hpc hloaded => exact h.reload o .loop
  | reloadFails o hpc hfailed => exact h.reload o .shutdown

theorem Step.pc_ne_init (hstep : Step s move s') : s'.pc ≠ .init := by
  intro hpc'
  cases hstep with
  | leave | reload | reloadFails => cases hpc'
  | callInit | update | callShutdown =>
      simp only [call] at hpc'
      split at hpc' <;> cases hpc'

theorem start_calls (h : start modulePath first = some s₀) :
    s₀.InOrder ∧ s₀.LiveOrNull ∧ s₀.FromLoads ∧ s₀.reloads = [] := by
  unfold start at h
  simp only at h
  split_ifs at h with hloaded
  obtain rfl := Option.some.inj h
  refine ⟨⟨0, rfl⟩, by simp [LiveOrNull], ?_, rfl⟩
  have hnew : (Game.new modulePath).unload = Game.new modulePath := rfl
  obtain ⟨hloads, hmodule⟩ := (Game.new modulePath).reload_loads first
  rw [Game.reload, hnew] at hloads hmodule
  exact ⟨hloads, fun module hm => by rw [hmodule module hm]; exact hloads.symm, by simp, by simp,
    by simp⟩

/-- A call goes through a null pointer or into the module that is loaded. -/
theorem Phase.next_call (hs : s.Phase) (hstep : Step s move s') {call : GameCall}
    (hcall : s'.calls = call :: s.calls) {symbol : GameSymbol} (hsymbol : call.pointer = some symbol) :
    call.module = s.game.module ∧ s.game.module = some symbol.module ∧ symbol.name = call.name := by
  have hloaded : ∀ {name : GameFunction} {pointer : Option GameSymbol},
      (∃ module, s.game.module = some module ∧ pointer = some ⟨module, name⟩) →
      call = ⟨name, pointer, s.game.module, s.game.shadowCopy⟩ →
      call.module = s.game.module ∧ s.game.module = some symbol.module ∧ symbol.name = call.name := by
    rintro name _ ⟨module, hmodule, rfl⟩ rfl
    obtain rfl := Option.some.inj hsymbol
    exact ⟨rfl, hmodule, rfl⟩
  cases hstep with
  | callInit hpc => exact hloaded (hs.inGame (.inl hpc)).1.init (List.cons.inj hcall).1.symm
  | update hpc => exact hloaded (hs.inGame (.inr hpc)).1.update (List.cons.inj hcall).1.symm
  | leave | reload | reloadFails => exact absurd hcall.symm (List.cons_ne_self _ _)
  | callShutdown hpc =>
      cases hs with
      | running hpc' => simp [hpc] at hpc'
      | leaving _ hgame => exact hloaded hgame (List.cons.inj hcall).1.symm
      | lost _ hgame =>
          obtain rfl := (List.cons.inj hcall).1
          rw [hgame] at hsymbol
          cases hsymbol
      | crashed hpc' => simp [hpc] at hpc'

theorem LiveOrNull.step (h : s.LiveOrNull) (hs : s.Phase) (hstep : Step s move s') :
    s'.LiveOrNull := by
  have hnext : ∀ call, s'.calls = call :: s.calls → call.pointer ≠ none → call.Live := by
    intro call hcall hpointer
    obtain ⟨symbol, hsymbol⟩ := Option.ne_none_iff_exists'.mp hpointer
    obtain ⟨hsame, hmodule, hname⟩ := hs.next_call hstep hcall hsymbol
    exact ⟨symbol.module, hsame.trans hmodule, by rw [hsymbol, ← hname]⟩
  cases hstep with
  | callInit | update | callShutdown => exact List.forall_mem_cons.mpr ⟨hnext _ rfl, h⟩
  | leave | reload | reloadFails => exact h

/-- Whatever is reloaded in between, `main` calls `onInit` once, on the first module, then only
`onUpdate`, and `onShutdown` at most once, at the end. Each call that is not through a null pointer goes
into the module of the latest load: a reloaded module is never initialised and a replaced one never
shut down. -/
theorem call_order (h₀ : start modulePath first = some s₀) (h : machine.Reach s₀ s) :
    s.InOrder ∧ s.LiveOrNull ∧
    (∀ call ∈ s.calls, call.name = .onInit →
      ∃ module, call.module = some module ∧ module.load = 1 ∧ call.pointer = some ⟨module, .onInit⟩) ∧
    (s.calls.Pairwise fun newer older => ∀ module module', newer.module = some module →
      older.module = some module' → module'.load ≤ module.load) ∧
    (∀ module, s.game.module = some module → module.load = s.reloads.length + 1) ∧
    ∀ move s' call symbol, machine.next s move = some s' → s'.calls = call :: s.calls →
      call.pointer = some symbol → s.game.module = some symbol.module ∧ symbol.name = call.name ∧
        symbol.module.load = s.reloads.length + 1 := by
  obtain ⟨horder, hlive, hloads, hreloads⟩ := start_calls h₀
  obtain ⟨-, hphase, hoff⟩ := start_spec h₀
  have hinv := Machine.ReachIf.invariant
    (I := fun s => s.Phase ∧ s.OffShadowCopy modulePath ∧ s.InOrder ∧ s.LiveOrNull ∧ s.FromLoads ∧
      (s.pc = .init → s.reloads = []))
    (fun a move b ha _ hn => by
      obtain ⟨hp, ho, hi, hl, hf, hr⟩ := ha
      have hstep := next_step hn
      have hpath : a.game.modulePath ≠ moduleShadowCopy := by
        rw [ho.game.path]
        exact ho.ne
      exact ⟨hp.step hpath hstep, ho.step hstep, hi.step hp hstep, hl.step hp hstep,
        hf.step hp hr hstep, fun hpc => (hstep.pc_ne_init hpc).elim⟩) h
    ⟨hphase, hoff, horder, hlive, hloads, fun _ => hreloads⟩
  obtain ⟨hp, -, hi, hl, hf, -⟩ := hinv
  refine ⟨hi, hl, hf.init, hf.sorted, fun module hm => (hf.module module hm).trans hf.loads, ?_⟩
  intro move s' call symbol hn hcall hsymbol
  obtain ⟨-, hmodule, hname⟩ := hp.next_call (next_step hn) hcall hsymbol
  exact ⟨hmodule, hname, (hf.module _ hmodule).trans hf.loads⟩

theorem call_order_reload : ∃ s₀ s, start "game.dll" goodLoad = some s₀ ∧
    machine.exec s₀ reloadOnce = some s ∧
    s.called = [.onInit, .onUpdate, .onUpdate, .onShutdown] ∧ s.InOrder ∧ s.LiveOrNull ∧
    (s.calls.Pairwise fun newer older => ∀ module module', newer.module = some module →
      older.module = some module' → module'.load ≤ module.load) ∧
    ∀ module, s.game.module = some module → module.load = s.reloads.length + 1 := by
  refine ⟨_, _, rfl, rfl, rfl, ?_⟩
  have hstart : start "game.dll" goodLoad = some _ := rfl
  obtain ⟨horder, hlive, -, hsorted, hlatest, -⟩ :=
    call_order hstart (Machine.reach_of_exec reloadOnce rfl)
  exact ⟨horder, hlive, hsorted, hlatest⟩

end Launcher
end ProjectDelta
