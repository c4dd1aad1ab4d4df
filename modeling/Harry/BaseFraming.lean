import Mathlib.Data.List.Basic

/-! Streams of frames that carry their own length. A frame begins with a header of a fixed size, and the header
states the length of the whole frame. `frames` is the reference reader, which has the whole stream before it;
`rest` is what it leaves: an unfinished frame, or one with a length that is too short to be one. An incremental
reader is right if what it has delivered are the frames of the part it has consumed, and what it keeps is the rest
of it: `frames_append` and `rest_append` say how these go on when more comes in. -/

namespace Harry.Base

/-- A format of frames over an alphabet. -/
structure Framing (β : Type) where
  headerSize : Nat
  headerSize_pos : 0 < headerSize
  /-- The length that a header states. -/
  length : List β → Nat
  length_append : ∀ {h : List β} (x : List β), headerSize ≤ h.length → length (h ++ x) = length h

namespace Framing

variable {β : Type} (F : Framing β)

/-- A list is one frame. -/
structure IsFrame (m : List β) : Prop where
  header_le : F.headerSize ≤ m.length
  length_eq : F.length m = m.length

/-- A whole header with a length that is shorter than itself. -/
structure Malformed (s : List β) : Prop where
  header_le : F.headerSize ≤ s.length
  length_lt : F.length s < F.headerSize

/-- A stream that begins with a whole frame. -/
structure Begins (s : List β) : Prop where
  header_le : F.headerSize ≤ s.length
  header_le_length : F.headerSize ≤ F.length s
  length_le : F.length s ≤ s.length

instance (s : List β) : Decidable (F.Begins s) :=
  decidable_of_iff (F.headerSize ≤ s.length ∧ F.headerSize ≤ F.length s ∧ F.length s ≤ s.length)
    ⟨fun h => ⟨h.1, h.2.1, h.2.2⟩, fun h => ⟨h.1, h.2, h.3⟩⟩

variable {F} in
theorem Begins.drop_lt {s : List β} (h : F.Begins s) : (s.drop (F.length s)).length < s.length := by
  have hpos := F.headerSize_pos
  have h1 := h.header_le
  have h2 := h.header_le_length
  rw [List.length_drop]
  omega

/-- The frames of a stream, one after another. -/
def frames (s : List β) : List (List β) :=
  if F.Begins s then s.take (F.length s) :: frames (s.drop (F.length s)) else []
termination_by s.length
decreasing_by exact Begins.drop_lt ‹_›

/-- What comes after the last whole frame. -/
def rest (s : List β) : List β :=
  if F.Begins s then rest (s.drop (F.length s)) else s
termination_by s.length
decreasing_by exact Begins.drop_lt ‹_›

variable {F} {s m x : List β}

theorem frames_of_not_begins (h : ¬ F.Begins s) : F.frames s = [] := by
  rw [frames, if_neg h]

theorem rest_of_not_begins (h : ¬ F.Begins s) : F.rest s = s := by
  rw [rest, if_neg h]

theorem frames_of_begins (h : F.Begins s) : F.frames s = s.take (F.length s) :: F.frames (s.drop (F.length s)) := by
  rw [frames, if_pos h]

theorem rest_of_begins (h : F.Begins s) : F.rest s = F.rest (s.drop (F.length s)) := by
  rw [rest, if_pos h]

theorem not_begins_of_length_lt (h : s.length < F.headerSize) : ¬ F.Begins s :=
  fun hb => Nat.not_le_of_lt h hb.header_le

theorem Malformed.not_begins (h : F.Malformed s) : ¬ F.Begins s :=
  fun hb => Nat.not_le_of_lt h.length_lt hb.header_le_length

theorem Malformed.append (h : F.Malformed s) (x : List β) : F.Malformed (s ++ x) where
  header_le := by
    rw [List.length_append]
    exact Nat.le_trans h.header_le (Nat.le_add_right _ _)
  length_lt := by
    rw [F.length_append x h.header_le]
    exact h.length_lt

theorem Begins.append (h : F.Begins s) (x : List β) : F.Begins (s ++ x) where
  header_le := by
    rw [List.length_append]
    exact Nat.le_trans h.header_le (Nat.le_add_right _ _)
  header_le_length := by
    rw [F.length_append x h.header_le]
    exact h.header_le_length
  length_le := by
    rw [F.length_append x h.header_le, List.length_append]
    exact Nat.le_trans h.length_le (Nat.le_add_right _ _)

theorem IsFrame.begins (h : F.IsFrame m) (x : List β) : F.Begins (m ++ x) := by
  have hm : F.Begins m := ⟨h.header_le, h.length_eq ▸ h.header_le, Nat.le_of_eq h.length_eq⟩
  exact hm.append x

/-- A frame in front. -/
theorem frames_cons (h : F.IsFrame m) (x : List β) : F.frames (m ++ x) = m :: F.frames x := by
  rw [frames_of_begins (h.begins x), F.length_append x h.header_le, h.length_eq, List.take_left, List.drop_left]

theorem rest_cons (h : F.IsFrame m) (x : List β) : F.rest (m ++ x) = F.rest x := by
  rw [rest_of_begins (h.begins x), F.length_append x h.header_le, h.length_eq, List.drop_left]

theorem frames_frame (h : F.IsFrame m) : F.frames m = [m] := by
  have hnil : F.frames ([] : List β) = [] := frames_of_not_begins (not_begins_of_length_lt F.headerSize_pos)
  have hm := frames_cons h []
  rwa [List.append_nil, hnil] at hm

theorem rest_frame (h : F.IsFrame m) : F.rest m = [] := by
  have hnil : F.rest ([] : List β) = [] := rest_of_not_begins (not_begins_of_length_lt F.headerSize_pos)
  have hm := rest_cons h []
  rwa [List.append_nil, hnil] at hm

/-- The reference reader gets back what was put in the stream. -/
theorem frames_flatten {ms : List (List β)} (h : ∀ m ∈ ms, F.IsFrame m) (hx : ¬ F.Begins x) :
    F.frames (ms.flatten ++ x) = ms ∧ F.rest (ms.flatten ++ x) = x := by
  induction ms with
  | nil => exact ⟨frames_of_not_begins hx, rest_of_not_begins hx⟩
  | cons m ms ih =>
      obtain ⟨hframes, hrest⟩ := ih fun m' hm' => h m' (List.mem_cons_of_mem m hm')
      have hm := h m List.mem_cons_self
      rw [List.flatten_cons, List.append_assoc, frames_cons hm, rest_cons hm, hframes, hrest]
      exact ⟨rfl, rfl⟩

theorem not_begins_rest (s : List β) : ¬ F.Begins (F.rest s) := by
  by_cases h : F.Begins s
  · rw [rest_of_begins h]
    exact not_begins_rest (s.drop (F.length s))
  · rw [rest_of_not_begins h]
    exact h
termination_by s.length
decreasing_by exact h.drop_lt

/-- More of the stream: the reader goes on from the rest. -/
theorem frames_append (s x : List β) : F.frames (s ++ x) = F.frames s ++ F.frames (F.rest s ++ x) := by
  by_cases h : F.Begins s
  · rw [frames_of_begins (h.append x), F.length_append x h.header_le, List.take_append_of_le_length h.length_le,
      List.drop_append_of_le_length h.length_le, frames_append (s.drop (F.length s)) x, frames_of_begins h,
      rest_of_begins h]
    rfl
  · rw [frames_of_not_begins h, rest_of_not_begins h]
    rfl
termination_by s.length
decreasing_by exact h.drop_lt

theorem rest_append (s x : List β) : F.rest (s ++ x) = F.rest (F.rest s ++ x) := by
  by_cases h : F.Begins s
  · rw [rest_of_begins (h.append x), F.length_append x h.header_le, List.drop_append_of_le_length h.length_le,
      rest_append (s.drop (F.length s)) x, rest_of_begins h]
  · rw [rest_of_not_begins h]
termination_by s.length
decreasing_by exact h.drop_lt

end Framing

end Harry.Base
