import ProjectDelta.RoundUp

/-!
# Sizes of records

A record places its fields one after the other, each at the next multiple of its
alignment, and is padded at the end to the alignment of the whole.
-/

namespace RecordLayout

structure Field where
  size : ℕ
  alignment : ℕ

/-- A field of the size of its alignment. -/
def Field.scalar (size : ℕ) : Field := ⟨size, size⟩

/-- Where the next field may start once `f` is placed. -/
def place (offset : ℕ) (f : Field) : ℕ := RoundUp.up offset f.alignment + f.size

def size (alignment : ℕ) (fields : List Field) : ℕ :=
  RoundUp.up (fields.foldl place 0) alignment

end RecordLayout
