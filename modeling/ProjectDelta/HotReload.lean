import Mathlib.Data.Int.Notation
import ProjectDelta.Launcher

/-!
# Reload signals

A build ends with `trigger::Send`, which sends one byte to the socket that the
launcher bound in `trigger::StartServer`. Once in every turn of its loop the
launcher takes all datagrams off that socket in `trigger::CheckForSignal`, and
reloads the module if there was a signal among them. Builds, senders, anybody else
who sends to the port and the launcher interleave freely; each `recvfrom` is a step
of its own.

`built` counts the module files written to the path, `loaded` and `announced` are
its values at the last good load and at the last `Send`, and `signals` counts the
signals that reached the socket. These four are ghosts.
-/

namespace ProjectDelta

/-- `recvfrom` with room for one byte, on a non-blocking socket that holds datagrams of these lengths.
Of a longer datagram the rest is dropped; Windows returns an error for it. -/
def recvfrom (windows : Bool) : List ℕ → ℤ × List ℕ
  | [] => (-1, [])
  | len :: queue => (if len ≤ 1 then len else if windows then -1 else 1, queue)

/-- `recvfrom` returns more than 0 for a datagram of this length. -/
def isSignal (windows : Bool) (len : ℕ) : Bool := 0 < (recvfrom windows [len]).1

/-- Program points of the loop: at its head, in the loop of `CheckForSignal`, and behind the call. -/
inductive CheckPc
  | head
  | checking (triggered : Bool)
  | checked (triggered : Bool)
  deriving DecidableEq

/-- `main` before, after a failed and after a good first load. -/
inductive LauncherMain
  | loading
  | failed
  | running (launcher : Launcher)

structure HotReload where
  main : LauncherMain
  check : CheckPc
  socket : List ℕ
  built : ℕ
  loaded : ℕ
  announced : ℕ
  signals : ℕ

/-- `kept` is false for a datagram that the socket has no room for. -/
inductive HotReloadMove
  | build
  | send (kept : Bool)
  | datagram (len : ℕ) (kept : Bool)
  | firstLoad (modulePath : String) (o : LoadOutcome)
  | callInit
  | leave
  | checkForSignal
  | recv
  | reload (o : LoadOutcome)
  | update
  | callShutdown

/-- A move of the launcher in its loop, the reload apart. -/
def HotReloadMove.inLoop : HotReloadMove → Bool
  | .checkForSignal | .recv | .update => true
  | _ => false

/-- Neither a reload nor the end of the loop. -/
def HotReloadMove.staysInLoop : HotReloadMove → Bool
  | .reload _ | .leave => false
  | _ => true

/-- The moves that a datagram can cause. -/
def HotReloadMove.delay : HotReloadMove → ℕ
  | .send _ | .datagram _ _ => 4
  | _ => 0

namespace HotReload

def arrive (windows : Bool) (s : HotReload) (len : ℕ) (kept : Bool) : HotReload :=
  if kept then
    { s with
      socket := s.socket ++ [len]
      signals := if isSignal windows len then s.signals + 1 else s.signals }
  else s

/-- A move of the launcher behind the first load. -/
def launcherStep (windows : Bool) (s : HotReload) (launcher : Launcher) :
    HotReloadMove → Option HotReload
  | .callInit => (Launcher.machine.next launcher .callInit).map fun launcher =>
      { s with main := .running launcher }
  | .leave => match s.check with
    | .head => (Launcher.machine.next launcher .leave).map fun launcher =>
        { s with main := .running launcher }
    | _ => none
  | .checkForSignal =>
      if s.check = .head ∧ launcher.pc = .loop then some { s with check := .checking false } else none
  | .recv => match s.check with
    | .checking triggered =>
        let r := recvfrom windows s.socket
        some { s with
          socket := r.2
          check := if 0 < r.1 then .checking true else .checked triggered }
    | _ => none
  | .reload o => match s.check with
    | .checked true => (Launcher.machine.next launcher (.reload o)).map fun launcher =>
        { s with
          main := .running launcher
          check := .head
          loaded := if launcher.pc = .loop then s.built else s.loaded }
    | _ => none
  | .update => match s.check with
    | .checked false => (Launcher.machine.next launcher .update).map fun launcher =>
        { s with
          main := .running launcher
          check := .head }
    | _ => none
  | .callShutdown => (Launcher.machine.next launcher .callShutdown).map fun launcher =>
      { s with main := .running launcher }
  | _ => none

def machine (windows : Bool) : Machine HotReload HotReloadMove where
  next s move := match move with
    | .build => some { s with built := s.built + 1 }
    | .send kept => some { s.arrive windows 1 kept with announced := s.built }
    | .datagram len kept => some (s.arrive windows len kept)
    | .firstLoad modulePath o => match s.main with
      | .loading => match Launcher.start modulePath o with
        | some launcher => some { s with main := .running launcher, loaded := s.built }
        | none => some { s with main := .failed }
      | _ => none
    | move => match s.main with
      | .running launcher => s.launcherStep windows launcher move
      | _ => none

/-- After `StartServer`: the socket is bound and empty, and the first load is still to come. -/
def bound : HotReload := ⟨.loading, .head, [], 0, 0, 0, 0⟩

/-! ### What a step does -/

inductive Step (windows : Bool) (s : HotReload) : HotReloadMove → HotReload → Prop
  | build : Step windows s .build { s with built := s.built + 1 }
  | send (kept : Bool) :
      Step windows s (.send kept) { s.arrive windows 1 kept with announced := s.built }
  | datagram (len : ℕ) (kept : Bool) :
      Step windows s (.datagram len kept) (s.arrive windows len kept)
  | firstLoad {modulePath : String} {o : LoadOutcome} {launcher : Launcher}
      (hmain : s.main = .loading) (h : Launcher.start modulePath o = some launcher) :
      Step windows s (.firstLoad modulePath o)
        { s with main := .running launcher, loaded := s.built }
  | firstLoadFails {modulePath : String} {o : LoadOutcome} (hmain : s.main = .loading) :
      Step windows s (.firstLoad modulePath o) { s with main := .failed }
  | callInit {launcher launcher' : Launcher} (hmain : s.main = .running launcher)
      (h : Launcher.machine.next launcher .callInit = some launcher') :
      Step windows s .callInit { s with main := .running launcher' }
  | leave {launcher launcher' : Launcher} (hmain : s.main = .running launcher)
      (hcheck : s.check = .head) (h : Launcher.machine.next launcher .leave = some launcher') :
      Step windows s .leave { s with main := .running launcher' }
  | checkForSignal {launcher : Launcher} (hmain : s.main = .running launcher)
      (hcheck : s.check = .head) (hpc : launcher.pc = .loop) :
      Step windows s .checkForSignal { s with check := .checking false }
  | recvNothing {launcher : Launcher} {triggered : Bool} (hmain : s.main = .running launcher)
      (hcheck : s.check = .checking triggered) (hsocket : s.socket = []) :
      Step windows s .recv { s with socket := [], check := .checked triggered }
  | recvSignal {launcher : Launcher} {triggered : Bool} {len : ℕ} {queue : List ℕ}
      (hmain : s.main = .running launcher) (hcheck : s.check = .checking triggered)
      (hsocket : s.socket = len :: queue) (h : isSignal windows len = true) :
      Step windows s .recv { s with socket := queue, check := .checking true }
  | recvOther {launcher : Launcher} {triggered : Bool} {len : ℕ} {queue : List ℕ}
      (hmain : s.main = .running launcher) (hcheck : s.check = .checking triggered)
      (hsocket : s.socket = len :: queue) (h : isSignal windows len = false) :
      Step windows s .recv { s with socket := queue, check := .checked triggered }
  | reload {launcher launcher' : Launcher} (o : LoadOutcome) (hmain : s.main = .running launcher)
      (hcheck : s.check = .checked true)
      (h : Launcher.machine.next launcher (.reload o) = some launcher') :
      Step windows s (.reload o)
        { s with
          main := .running launcher'
          check := .head
          loaded := if launcher'.pc = .loop then s.built else s.loaded }
  | update {launcher launcher' : Launcher} (hmain : s.main = .running launcher)
      (hcheck : s.check = .checked false) (h : Launcher.machine.next launcher .update = some launcher') :
      Step windows s .update { s with main := .running launcher', check := .head }
  | callShutdown {launcher launcher' : Launcher} (hmain : s.main = .running launcher)
      (h : Launcher.machine.next launcher .callShutdown = some launcher') :
      Step windows s .callShutdown { s with main := .running launcher' }

variable {windows : Bool} {s s' : HotReload} {move : HotReloadMove}

theorem launcherStep_step {launcher : Launcher} (hmain : s.main = .running launcher)
    (h : s.launcherStep windows launcher move = some s') : Step windows s move s' := by
  cases move with
  | build | send | datagram | firstLoad => cases h
  | callInit =>
      obtain ⟨launcher', hn, rfl⟩ := Option.map_eq_some_iff.mp h
      exact .callInit hmain hn
  | callShutdown =>
      obtain ⟨launcher', hn, rfl⟩ := Option.map_eq_some_iff.mp h
      exact .callShutdown hmain hn
  | leave =>
      simp only [launcherStep] at h
      split at h <;> rename_i hcheck
      · obtain ⟨launcher', hn, rfl⟩ := Option.map_eq_some_iff.mp h
        exact .leave hmain hcheck hn
      · cases h
  | checkForSignal =>
      simp only [launcherStep] at h
      split at h <;> rename_i hhead
      · obtain rfl := Option.some.inj h
        exact .checkForSignal hmain hhead.1 hhead.2
      · cases h
  | recv =>
      simp only [launcherStep] at h
      split at h <;> rename_i hcheck
      · obtain rfl := Option.some.inj h
        cases hsocket : s.socket with
        | nil => exact .recvNothing hmain hcheck hsocket
        | cons len queue =>
            cases hsignal : isSignal windows len with
            | true =>
                have hpos : 0 < (recvfrom windows [len]).1 := of_decide_eq_true hsignal
                have hif : 0 < (recvfrom windows (len :: queue)).1 := hpos
                rw [if_pos hif]
                exact .recvSignal hmain hcheck hsocket hsignal
            | false =>
                have hneg : ¬ 0 < (recvfrom windows [len]).1 := of_decide_eq_false hsignal
                have hif : ¬ 0 < (recvfrom windows (len :: queue)).1 := hneg
                rw [if_neg hif]
                exact .recvOther hmain hcheck hsocket hsignal
      · cases h
  | reload o =>
      simp only [launcherStep] at h
      split at h <;> rename_i hcheck
      · obtain ⟨launcher', hn, rfl⟩ := Option.map_eq_some_iff.mp h
        exact .reload o hmain hcheck hn
      · cases h
  | update =>
      simp only [launcherStep] at h
      split at h <;> rename_i hcheck
      · obtain ⟨launcher', hn, rfl⟩ := Option.map_eq_some_iff.mp h
        exact .update hmain hcheck hn
      · cases h

theorem next_step (h : (machine windows).next s move = some s') : Step windows s move s' := by
  have hlauncher : ∀ {m : HotReloadMove}, (match s.main with
      | .running launcher => s.launcherStep windows launcher m
      | _ => none) = some s' → Step windows s m s' := by
    intro m hm
    split at hm <;> rename_i hmain
    · exact launcherStep_step hmain hm
    · cases hm
  cases move with
  | build =>
      obtain rfl := Option.some.inj h
      exact .build
  | send kept =>
      obtain rfl := Option.some.inj h
      exact .send kept
  | datagram len kept =>
      obtain rfl := Option.some.inj h
      exact .datagram len kept
  | firstLoad modulePath o =>
      simp only [machine] at h
      split at h <;> rename_i hmain
      · split at h <;> rename_i hstart <;> obtain rfl := Option.some.inj h
        · exact .firstLoad hmain hstart
        · exact .firstLoadFails hmain
      · cases h
  | _ => exact hlauncher h

/-! ### The launcher inside -/

/-- The launcher has been started by a good load and has made moves of its own machine since. -/
def Launched (s : HotReload) : Prop :=
  ∀ launcher, s.main = .running launcher → ∃ modulePath o launcher₀,
    Launcher.start modulePath o = some launcher₀ ∧ Launcher.machine.Reach launcher₀ launcher

/-- `CheckForSignal` is called in the loop only. -/
def Looping (s : HotReload) : Prop :=
  s.check ≠ .head → ∃ launcher, s.main = .running launcher ∧ launcher.pc = .loop

theorem arrive_fields (windows : Bool) (s : HotReload) (len : ℕ) (kept : Bool) :
    (s.arrive windows len kept).main = s.main ∧ (s.arrive windows len kept).check = s.check ∧
      (s.arrive windows len kept).built = s.built ∧ (s.arrive windows len kept).loaded = s.loaded ∧
      (s.arrive windows len kept).announced = s.announced := by
  unfold arrive
  split <;> exact ⟨rfl, rfl, rfl, rfl, rfl⟩

theorem Launched.of_main (h : s.Launched) (hmain : s'.main = s.main) : s'.Launched := by
  intro launcher hl
  exact h launcher (hmain ▸ hl)

theorem Launched.of_next {launcher launcher' : Launcher} {move : LauncherMove} (h : s.Launched)
    (hmain : s.main = .running launcher) (hmain' : s'.main = .running launcher')
    (hn : Launcher.machine.next launcher move = some launcher') : s'.Launched := by
  intro l hl
  obtain rfl : launcher' = l := LauncherMain.running.inj (hmain'.symm.trans hl)
  obtain ⟨modulePath, o, launcher₀, hstart, hreach⟩ := h launcher hmain
  exact ⟨modulePath, o, launcher₀, hstart, hreach.tail trivial hn⟩

theorem Launched.step (h : s.Launched) (hstep : Step windows s move s') : s'.Launched := by
  cases hstep with
  | build | checkForSignal | recvNothing | recvSignal | recvOther => exact h.of_main rfl
  | send kept => exact h.of_main (arrive_fields windows s 1 kept).1
  | datagram len kept => exact h.of_main (arrive_fields windows s len kept).1
  | firstLoad hmain hstart =>
      intro launcher hl
      obtain rfl := LauncherMain.running.inj hl
      exact ⟨_, _, _, hstart, .refl _⟩
  | firstLoadFails =>
      intro launcher hl
      cases hl
  | callInit hmain hn => exact h.of_next hmain rfl hn
  | leave hmain hcheck hn => exact h.of_next hmain rfl hn
  | reload o hmain hcheck hn => exact h.of_next hmain rfl hn
  | update hmain hcheck hn => exact h.of_next hmain rfl hn
  | callShutdown hmain hn => exact h.of_next hmain rfl hn

theorem Looping.head (h : s.Looping) {launcher : Launcher} (hmain : s.main = .running launcher)
    (hpc : launcher.pc ≠ .loop) : s.check = .head := by
  by_contra hcheck
  obtain ⟨l, hl, hloop⟩ := h hcheck
  obtain rfl := LauncherMain.running.inj (hmain.symm.trans hl)
  exact hpc hloop

theorem Looping.step (h : s.Looping) (hstep : Step windows s move s') : s'.Looping := by
  cases hstep with
  | build => exact h
  | send kept =>
      obtain ⟨hmain, hcheck, -⟩ := arrive_fields windows s 1 kept
      simp only [Looping, hmain, hcheck]
      exact h
  | datagram len kept =>
      obtain ⟨hmain, hcheck, -⟩ := arrive_fields windows s len kept
      simp only [Looping, hmain, hcheck]
      exact h
  | firstLoad hmain | firstLoadFails hmain =>
      intro hcheck
      obtain ⟨launcher, hl, -⟩ := h hcheck
      rw [hmain] at hl
      cases hl
  | checkForSignal hmain hcheck hpc => exact fun _ => ⟨_, hmain, hpc⟩
  | recvNothing hmain hcheck | recvSignal hmain hcheck | recvOther hmain hcheck =>
      exact fun _ => h (by rw [hcheck]; exact CheckPc.noConfusion)
  | callInit hmain hn =>
      cases Launcher.next_step hn with
      | callInit hpc => exact fun hcheck => (hcheck (h.head hmain (by rw [hpc]; decide))).elim
  | callShutdown hmain hn =>
      cases Launcher.next_step hn with
      | callShutdown hpc => exact fun hcheck => (hcheck (h.head hmain (by rw [hpc]; decide))).elim
  | leave hmain hcheck => exact fun hne => (hne hcheck).elim
  | reload | update => exact fun hne => (hne rfl).elim

/-! ### No reload is lost -/

/-- A signal is on the socket, or was found there by the call of `CheckForSignal` that is going on or
has just returned. -/
def Pending (windows : Bool) (s : HotReload) : Prop :=
  (∃ len ∈ s.socket, isSignal windows len = true) ∨ s.check = .checking true ∨
    s.check = .checked true

/-- The launcher runs an older module than the one that the last signal announced. -/
def Stale (s : HotReload) : Prop :=
  s.loaded < s.announced ∧
    ∃ launcher, s.main = .running launcher ∧ (launcher.pc = .init ∨ launcher.pc = .loop)

/-- A signal for which the socket has no room finds another one there. -/
def SignalKept (windows : Bool) (s : HotReload) : HotReloadMove → Prop
  | .send kept => kept = true ∨ ∃ len ∈ s.socket, isSignal windows len = true
  | _ => True

/-- What was announced is on the path, and is loaded or about to be. -/
structure Announced (windows : Bool) (s : HotReload) : Prop where
  built : s.announced ≤ s.built
  pending : s.Stale → s.Pending windows

theorem Pending.arrive {len : ℕ} {kept : Bool} (h : s.Pending windows) :
    (s.arrive windows len kept).Pending windows := by
  unfold HotReload.arrive
  split
  · refine h.imp_left ?_
    rintro ⟨l, hl, hsignal⟩
    exact ⟨l, List.mem_append_left _ hl, hsignal⟩
  · exact h

theorem Announced.step (h : s.Announced windows) (hg : SignalKept windows s move)
    (hstep : Step windows s move s') : s'.Announced windows := by
  cases hstep with
  | build => exact ⟨Nat.le_succ_of_le h.built, h.pending⟩
  | send kept =>
      obtain ⟨-, -, hbuilt, -⟩ := arrive_fields windows s 1 kept
      refine ⟨Nat.le_of_eq hbuilt.symm, fun _ => ?_⟩
      cases kept with
      | true => exact Or.inl ⟨1, List.mem_append_right _ (List.mem_singleton_self 1), by cases windows <;> rfl⟩
      | false => exact Or.inl (hg.resolve_left Bool.false_ne_true)
  | datagram len kept =>
      obtain ⟨hmain, hcheck, hbuilt, hloaded, hannounced⟩ :=
        arrive_fields windows s len kept
      refine ⟨by rw [hbuilt, hannounced]; exact h.built, fun hstale => ?_⟩
      rw [Stale, hmain, hloaded, hannounced] at hstale
      exact (h.pending hstale).arrive
  | firstLoad hmain hstart =>
      refine ⟨h.built, fun hstale => ?_⟩
      exact absurd h.built (Nat.not_le.mpr hstale.1)
  | firstLoadFails hmain =>
      refine ⟨h.built, fun hstale => ?_⟩
      obtain ⟨-, launcher, hl, -⟩ := hstale
      cases hl
  | callInit hmain hn =>
      refine ⟨h.built, fun hstale => ?_⟩
      cases Launcher.next_step hn with
      | callInit hpc => exact h.pending ⟨hstale.1, _, hmain, .inl hpc⟩
  | leave hmain hcheck hn =>
      refine ⟨h.built, fun hstale => ?_⟩
      cases Launcher.next_step hn with
      | leave hpc => exact h.pending ⟨hstale.1, _, hmain, .inr hpc⟩
  | checkForSignal hmain hcheck hpc =>
      refine ⟨h.built, fun hstale => Or.inl ?_⟩
      rcases h.pending hstale with hsocket | hc | hc
      · exact hsocket
      · rw [hcheck] at hc; cases hc
      · rw [hcheck] at hc; cases hc
  | @recvNothing launcher triggered hmain hcheck hsocket =>
      refine ⟨h.built, fun hstale => Or.inr (Or.inr ?_)⟩
      rcases h.pending hstale with ⟨len, hlen, -⟩ | hc | hc
      · rw [hsocket] at hlen
        cases hlen
      · obtain rfl := CheckPc.checking.inj (hcheck.symm.trans hc)
        rfl
      · rw [hcheck] at hc; cases hc
  | recvSignal => exact ⟨h.built, fun _ => Or.inr (Or.inl rfl)⟩
  | @recvOther launcher triggered len queue hmain hcheck hsocket hother =>
      refine ⟨h.built, fun hstale => ?_⟩
      rcases h.pending hstale with ⟨l, hl, hsignal⟩ | hc | hc
      · rcases List.mem_cons.mp (hsocket ▸ hl) with rfl | hqueue
        · rw [hother] at hsignal
          cases hsignal
        · exact Or.inl ⟨l, hqueue, hsignal⟩
      · obtain rfl := CheckPc.checking.inj (hcheck.symm.trans hc)
        exact Or.inr (Or.inr rfl)
      · rw [hcheck] at hc; cases hc
  | @reload launcher launcher' o hmain hcheck hn =>
      refine ⟨h.built, fun hstale => ?_⟩
      -- a good reload has loaded the newest file, and a failed one ends the loop
      obtain ⟨hlt, l, hl, hpc⟩ := hstale
      obtain rfl := LauncherMain.running.inj hl
      have hle : s.announced ≤ s.built := h.built
      cases Launcher.next_step hn with
      | reload _ hloop hloaded => exact absurd hle (Nat.not_le.mpr hlt)
      | reloadFails _ hloop hfailed => exact absurd hpc (by simp)
  | @update launcher launcher' hmain hcheck hn =>
      refine ⟨h.built, fun hstale => Or.inl ?_⟩
      cases Launcher.next_step hn with
      | update hpc =>
          rcases h.pending ⟨hstale.1, _, hmain, .inr hpc⟩ with hsocket | hc | hc
          · exact hsocket
          · rw [hcheck] at hc; cases hc
          · rw [hcheck] at hc; cases hc
  | callShutdown hmain hn =>
      refine ⟨h.built, fun hstale => ?_⟩
      obtain ⟨-, l, hl, hpc⟩ := hstale
      obtain rfl := LauncherMain.running.inj hl
      cases Launcher.next_step hn with
      | callShutdown hshut =>
          simp only [Launcher.call] at hpc
          split at hpc <;> simp at hpc

/-! ### Every reload has a signal of its own -/

def reloadCount (s : HotReload) : ℕ := match s.main with
  | .running launcher => launcher.reloads.length
  | _ => 0

/-- A signal has been taken off the socket and not yet been answered. -/
def unanswered (s : HotReload) : ℕ := match s.check with
  | .checking true | .checked true => 1
  | _ => 0

/-- The reloads so far, the one that is due and the signals on the socket. -/
def Accounted (windows : Bool) (s : HotReload) : Prop :=
  s.reloadCount + s.unanswered + s.socket.countP (isSignal windows) ≤ s.signals

theorem Accounted.arrive {len : ℕ} {kept : Bool} (h : s.Accounted windows) :
    (s.arrive windows len kept).Accounted windows := by
  unfold HotReload.arrive
  cases kept with
  | true =>
      cases hsignal : isSignal windows len <;>
        simp only [Accounted, reloadCount, unanswered, if_true, List.countP_append,
          List.countP_singleton, hsignal, Bool.false_eq_true, if_false] at h ⊢ <;> omega
  | false => exact h

theorem start_reloads {modulePath : String} {o : LoadOutcome} {launcher : Launcher}
    (h : Launcher.start modulePath o = some launcher) : launcher.reloads = [] := by
  unfold Launcher.start at h
  simp only at h
  split at h
  · obtain rfl := Option.some.inj h
    rfl
  · cases h

theorem unanswered_checking (triggered : Bool) (h : s.check = .checking triggered) :
    s.unanswered = triggered.toNat := by
  cases triggered <;> rw [unanswered, h] <;> rfl

theorem Accounted.step (h : s.Accounted windows) (hstep : Step windows s move s') :
    s'.Accounted windows := by
  cases hstep with
  | build => exact h
  | send kept => exact Accounted.arrive h
  | datagram len kept => exact h.arrive
  | firstLoad hmain hstart =>
      simp only [Accounted, reloadCount, unanswered, hmain, start_reloads hstart] at h ⊢
      exact h
  | firstLoadFails hmain =>
      simp only [Accounted, reloadCount, unanswered, hmain] at h ⊢
      exact h
  | checkForSignal hmain hcheck hpc =>
      simp only [Accounted, reloadCount, unanswered, hcheck] at h ⊢
      exact h
  | @recvNothing launcher triggered hmain hcheck hsocket =>
      simp only [Accounted, unanswered_checking triggered hcheck, hsocket] at h
      cases triggered <;> exact h
  | @recvSignal launcher triggered len queue hmain hcheck hsocket hsignal =>
      simp only [Accounted, hsocket, List.countP_cons, hsignal, if_true] at h
      simp only [Accounted, reloadCount, unanswered] at h ⊢
      omega
  | @recvOther launcher triggered len queue hmain hcheck hsocket hother =>
      simp only [Accounted, unanswered_checking triggered hcheck, hsocket, List.countP_cons, hother,
        Bool.false_eq_true, if_false, Nat.add_zero] at h
      cases triggered <;> exact h
  | @reload launcher launcher' o hmain hcheck hn =>
      simp only [Accounted, reloadCount, unanswered, hmain, hcheck] at h ⊢
      cases Launcher.next_step hn <;> simp only [List.length_cons] <;> omega
  | @update launcher launcher' hmain hcheck hn =>
      simp only [Accounted, reloadCount, unanswered, hmain, hcheck] at h ⊢
      cases Launcher.next_step hn
      exact h
  | callInit hmain hn | leave hmain hcheck hn | callShutdown hmain hn =>
      simp only [Accounted, reloadCount, unanswered, hmain] at h ⊢
      cases Launcher.next_step hn
      exact h

/-! ### Runs -/

/-- All that holds whatever the interleaving. -/
structure Served (windows : Bool) (s : HotReload) : Prop where
  launched : s.Launched
  looping : s.Looping
  accounted : s.Accounted windows

theorem bound_served (windows : Bool) : bound.Served windows where
  launched launcher hmain := by cases hmain
  looping hcheck := (hcheck rfl).elim
  accounted := Nat.le_refl 0

theorem bound_announced (windows : Bool) : bound.Announced windows where
  built := Nat.le_refl 0
  pending hstale := by
    obtain ⟨-, launcher, hmain, -⟩ := hstale
    cases hmain

theorem Served.step (h : s.Served windows) (hn : (machine windows).next s move = some s') :
    s'.Served windows :=
  ⟨h.launched.step (next_step hn), h.looping.step (next_step hn), h.accounted.step (next_step hn)⟩

theorem reach_served {G : HotReload → HotReloadMove → Prop}
    (h : (machine windows).ReachIf G bound s) : s.Served windows :=
  h.invariant (fun _ _ _ ha _ hn => ha.step hn) (bound_served windows)

/-- A module that is older than the last `Send` is never left without a signal: one waits on the
socket, or `CheckForSignal` has found one and the reload is due. -/
theorem stale_pending (windows : Bool) (s : HotReload)
    (h : (machine windows).ReachIf (SignalKept windows) bound s) (hstale : s.Stale) :
    s.Pending windows :=
  (h.invariant (fun _ _ _ ha hg hn => ha.step hg (next_step hn)) (bound_announced windows)).pending
    hstale

/-- The launcher reloads at most once for each signal that reached its socket, and what it does is a
run of `Launcher.machine` from a good first load. -/
theorem reloads_le_signals (windows : Bool) (s : HotReload) (launcher : Launcher)
    (h : (machine windows).Reach bound s) (hmain : s.main = .running launcher) :
    launcher.reloads.length ≤ s.signals ∧ ∃ modulePath o launcher₀,
      Launcher.start modulePath o = some launcher₀ ∧ Launcher.machine.Reach launcher₀ launcher := by
  have hserved := reach_served h
  have haccounted := hserved.accounted
  simp only [Accounted, reloadCount, hmain] at haccounted
  exact ⟨by omega, hserved.launched launcher hmain⟩

/-! ### How soon the reload comes -/

/-- The moves to the reload that is due, when no further datagram comes: a datagram that is no signal
ends the call of `CheckForSignal`, and the loop makes another turn. -/
def distance (s : HotReload) : ℕ :=
  4 * s.socket.length + match s.check with
    | .checked true => 1
    | .checking _ => 2
    | .head => 3
    | .checked false => 4

/-- The launcher is in its loop, with a signal to answer. -/
structure Due (windows : Bool) (s : HotReload) : Prop where
  served : s.Served windows
  announced : s.Announced windows
  stale : s.Stale
  loop : ∃ launcher, s.main = .running launcher ∧ launcher.pc = .loop

/-- Nobody ends the game or reloads it, and no signal is dropped. -/
def Undisturbed (windows : Bool) (s : HotReload) (move : HotReloadMove) : Prop :=
  SignalKept windows s move ∧ move.staysInLoop = true

theorem arrive_distance (s : HotReload) (len : ℕ) (kept : Bool) :
    (s.arrive windows len kept).distance ≤ s.distance + 4 := by
  unfold arrive
  cases kept with
  | true =>
      simp only [distance, if_true, List.length_append, List.length_cons, List.length_nil]
      omega
  | false => exact Nat.le_add_right _ _

/-- The launcher stays where it is. -/
theorem Due.of_main (h : s.Due windows) (hserved : s'.Served windows)
    (hannounced : s'.Announced windows) (hmain : s'.main = s.main) (hloaded : s'.loaded = s.loaded)
    (hle : s.announced ≤ s'.announced) : s'.Due windows := by
  obtain ⟨launcher, hl, hpc⟩ := h.loop
  rw [← hmain] at hl
  exact ⟨hserved, hannounced, ⟨hloaded ▸ Nat.lt_of_lt_of_le h.stale.1 hle, launcher, hl, .inr hpc⟩,
    launcher, hl, hpc⟩

/-- An update of a good game comes back to the loop. -/
theorem Launched.update_loops (h : s.Launched) {launcher launcher' : Launcher}
    (hmain : s.main = .running launcher)
    (hn : Launcher.machine.next launcher .update = some launcher') : launcher'.pc = .loop := by
  obtain ⟨modulePath, o, launcher₀, hstart, hreach⟩ := h launcher hmain
  obtain ⟨hphase, -⟩ := Launcher.reach_spec hstart hreach
  cases Launcher.next_step hn with
  | update hpc =>
      obtain ⟨module, -, hpointer⟩ := (hphase.inGame (.inr hpc)).1.update
      rw [Launcher.call, hpointer]
      rfl

theorem Due.step (h : s.Due windows) (hg : Undisturbed windows s move)
    (hn : (machine windows).next s move = some s') :
    s'.Due windows ∧ (if move.inLoop then 1 else 0) + s'.distance ≤ s.distance + move.delay := by
  have hserved := h.served.step hn
  have hannounced := h.announced.step hg.1 (next_step hn)
  obtain ⟨launcher, hmain, hpc⟩ := h.loop
  have hother : ∀ {l : Launcher}, s.main = .running l → l.pc = .loop := by
    intro l hl
    obtain rfl := LauncherMain.running.inj (hmain.symm.trans hl)
    exact hpc
  cases next_step hn with
  | build => exact ⟨h.of_main hserved hannounced rfl rfl (Nat.le_refl _), Nat.le_of_eq (Nat.zero_add _)⟩
  | send kept =>
      obtain ⟨hm, -, -, hl, -⟩ := arrive_fields windows s 1 kept
      refine ⟨h.of_main hserved hannounced hm hl h.announced.built, ?_⟩
      exact Nat.le_trans (Nat.le_of_eq (Nat.zero_add _)) (arrive_distance s 1 kept)
  | datagram len kept =>
      obtain ⟨hm, -, -, hl, ha⟩ := arrive_fields windows s len kept
      refine ⟨h.of_main hserved hannounced hm hl (Nat.le_of_eq ha.symm), ?_⟩
      exact Nat.le_trans (Nat.le_of_eq (Nat.zero_add _)) (arrive_distance s len kept)
  | firstLoad hloading | firstLoadFails hloading => rw [hmain] at hloading; cases hloading
  | leave | reload => cases hg.2
  | callInit hl hstep =>
      cases Launcher.next_step hstep with
      | callInit hinit => rw [hother hl] at hinit; cases hinit
  | callShutdown hl hstep =>
      cases Launcher.next_step hstep with
      | callShutdown hshut => rw [hother hl] at hshut; cases hshut
  | checkForSignal hl hcheck =>
      refine ⟨h.of_main hserved hannounced rfl rfl (Nat.le_refl _), ?_⟩
      simp only [distance, hcheck, HotReloadMove.inLoop, HotReloadMove.delay, if_true]
      omega
  | @recvNothing l triggered hl hcheck hsocket =>
      refine ⟨h.of_main hserved hannounced rfl rfl (Nat.le_refl _), ?_⟩
      -- the signal that is due has been found by this call
      have htriggered : triggered = true := by
        rcases h.announced.pending h.stale with ⟨len, hlen, -⟩ | hc | hc
        · rw [hsocket] at hlen
          cases hlen
        · exact CheckPc.checking.inj (hcheck.symm.trans hc)
        · rw [hcheck] at hc; cases hc
      simp only [distance, hcheck, hsocket, htriggered, HotReloadMove.inLoop, HotReloadMove.delay,
        if_true]
      omega
  | @recvSignal l triggered len queue hl hcheck hsocket hsignal =>
      refine ⟨h.of_main hserved hannounced rfl rfl (Nat.le_refl _), ?_⟩
      simp only [distance, hcheck, hsocket, List.length_cons, HotReloadMove.inLoop,
        HotReloadMove.delay, if_true]
      omega
  | @recvOther l triggered len queue hl hcheck hsocket hsignal =>
      refine ⟨h.of_main hserved hannounced rfl rfl (Nat.le_refl _), ?_⟩
      cases triggered <;>
        simp only [distance, hcheck, hsocket, List.length_cons, HotReloadMove.inLoop,
          HotReloadMove.delay, if_true] <;> omega
  | @update l l' hl hcheck hstep =>
      have hloop := h.served.launched.update_loops hl hstep
      refine ⟨⟨hserved, hannounced, ⟨h.stale.1, l', rfl, .inr hloop⟩, l', rfl, hloop⟩, ?_⟩
      simp only [distance, hcheck, HotReloadMove.inLoop, HotReloadMove.delay, if_true]
      omega

/-- The loop goes on, or the reload itself is the next move. -/
theorem Due.has_move (h : s.Due windows) :
    (∃ move, move.inLoop = true ∧ ((machine windows).next s move).isSome = true) ∨
      ∀ o, ((machine windows).next s (.reload o)).isSome = true := by
  obtain ⟨launcher, hmain, hpc⟩ := h.loop
  cases hcheck : s.check with
  | head =>
      refine .inl ⟨.checkForSignal, rfl, ?_⟩
      simp only [machine, hmain, launcherStep, hcheck, hpc, true_and, if_true, Option.isSome_some]
  | checking triggered =>
      refine .inl ⟨.recv, rfl, ?_⟩
      simp only [machine, hmain, launcherStep, hcheck, Option.isSome_some]
  | checked triggered =>
      cases triggered with
      | true =>
          refine .inr fun o => ?_
          simp only [machine, hmain, launcherStep, hcheck, Launcher.machine, hpc, Option.map_some,
            Option.isSome_some]
      | false =>
          refine .inl ⟨.update, rfl, ?_⟩
          simp only [machine, hmain, launcherStep, hcheck, Launcher.machine, hpc, Option.map_some,
            Option.isSome_some]

/-- From the moment the launcher in its loop runs an older module than announced, the reload is at most
four of its moves away for each datagram queued or still to come, and four more; until then the launcher
always has a move. -/
theorem reload_comes (windows : Bool) (s s' : HotReload) (launcher : Launcher)
    (h : (machine windows).ReachIf (SignalKept windows) bound s) (hmain : s.main = .running launcher)
    (hpc : launcher.pc = .loop) (hstale : s.loaded < s.announced) (moves : List HotReloadMove)
    (hexec : (machine windows).exec s moves = some s')
    (hG : (machine windows).Obeys (Undisturbed windows) s moves) :
    moves.countP HotReloadMove.inLoop ≤
        4 * s.socket.length + 4 + Machine.outlay HotReloadMove.delay moves ∧
      s'.loaded < s'.announced ∧
      ((∃ move, move.inLoop = true ∧ ((machine windows).next s' move).isSome = true) ∨
        ∀ o, ((machine windows).next s' (.reload o)).isSome = true) := by
  have hdue : s.Due windows := by
    refine ⟨reach_served h, ?_, ⟨hstale, launcher, hmain, .inr hpc⟩, launcher, hmain, hpc⟩
    exact h.invariant (fun _ _ _ ha hg hn => ha.step hg (next_step hn)) (bound_announced windows)
  have hcount : moves.countP HotReloadMove.inLoop + s'.distance ≤
      s.distance + Machine.outlay HotReloadMove.delay moves :=
    Machine.exec_outlay (fun _ _ _ ha hg hn => ha.step hg hn) moves hexec hG hdue
  have hdue' : s'.Due windows :=
    (Machine.reachIf_of_exec moves hexec hG).invariant (fun _ _ _ ha hg hn => (ha.step hg hn).1) hdue
  have hdistance : s.distance ≤ 4 * s.socket.length + 4 := by
    unfold distance
    split <;> omega
  exact ⟨by omega, hdue'.stale.1, hdue'.has_move⟩

instance (windows : Bool) (s : HotReload) : ∀ move, Decidable (SignalKept windows s move)
  | .send kept => inferInstanceAs (Decidable (kept = true ∨ ∃ len ∈ s.socket, _))
  | .build | .datagram _ _ | .firstLoad _ _ | .callInit | .leave | .checkForSignal | .recv | .reload _
  | .update | .callShutdown => isTrue trivial

instance (windows : Bool) (s : HotReload) (move : HotReloadMove) :
    Decidable (Undisturbed windows s move) := inferInstanceAs (Decidable (_ ∧ _))

/-- A build, an empty datagram from elsewhere, and then the signal of the build. -/
def buildAndSend : List HotReloadMove :=
  [.firstLoad "game.dll" Launcher.goodLoad, .callInit, .build, .datagram 0 true, .send true]

def afterSend : HotReload := ((machine true).exec bound buildAndSend).getD bound

/-- The empty datagram costs the loop a turn. -/
def turnsToReload : List HotReloadMove :=
  [.checkForSignal, .recv, .update, .checkForSignal, .recv, .recv]

def beforeReload : HotReload := ((machine true).exec afterSend turnsToReload).getD bound

theorem afterSend_reach : (machine true).ReachIf (SignalKept true) bound afterSend :=
  Machine.reachIf_of_exec buildAndSend rfl (by decide)

theorem beforeReload_reach : (machine true).ReachIf (SignalKept true) bound beforeReload :=
  Machine.reachIf_of_exec (buildAndSend ++ turnsToReload) rfl (by decide)

theorem stale_pending_beforeReload : beforeReload.socket = [] ∧ beforeReload.Pending true :=
  ⟨rfl, stale_pending true beforeReload beforeReload_reach
    ⟨by decide, _, rfl, .inr rfl⟩⟩

theorem reload_comes_turns :
    turnsToReload.countP HotReloadMove.inLoop = 6 ∧
      turnsToReload.countP HotReloadMove.inLoop ≤
        4 * afterSend.socket.length + 4 + Machine.outlay HotReloadMove.delay turnsToReload ∧
      beforeReload.loaded < beforeReload.announced ∧
      ((∃ move, move.inLoop = true ∧ ((machine true).next beforeReload move).isSome = true) ∨
        ∀ o, ((machine true).next beforeReload (.reload o)).isSome = true) :=
  ⟨rfl, reload_comes true afterSend beforeReload _ afterSend_reach rfl rfl (by decide) turnsToReload rfl
    (by decide)⟩

/-- The launcher has answered the signal. -/
def afterReload : HotReload :=
  ((machine true).exec beforeReload [.reload Launcher.goodLoad]).getD bound

theorem reloads_le_signals_afterReload : ∃ launcher, afterReload.main = .running launcher ∧
    launcher.reloads.length = 1 ∧ launcher.reloads.length ≤ afterReload.signals ∧ ∃ modulePath o launcher₀,
      Launcher.start modulePath o = some launcher₀ ∧ Launcher.machine.Reach launcher₀ launcher := by
  refine ⟨_, rfl, rfl, ?_⟩
  exact reloads_le_signals true afterReload _ (Machine.reach_of_exec
    (buildAndSend ++ turnsToReload ++ [.reload Launcher.goodLoad]) rfl) rfl

end HotReload
end ProjectDelta
