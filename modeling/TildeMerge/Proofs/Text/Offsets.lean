import TildeMerge.Text.Basic
import Mathlib.Data.List.Infix
import Mathlib.Order.Bounds.Basic
import Mathlib.Order.Nat

namespace TildeMerge.Text

variable {c : Char} {m s t u : Text} {n p q : Nat}

/-- The text `m` begins at the byte offset `n` of `t`. -/
def BeginsAt (m t : Text) (n : Nat) : Prop :=
  ∃ s, s ++ m <+: t ∧ s.size = n

/-- The first place from the offset `p` on where `m` begins in `t`. -/
def FirstAt (m t : Text) (p n : Nat) : Prop :=
  IsLeast {k | p ≤ k ∧ m.BeginsAt t k} n

theorem eq_nil_of_size_eq_zero (h : t.size = 0) : t = [] := by
  cases t with
  | nil => rfl
  | cons c t =>
    rw [size_cons] at h
    have hc := c.utf8Size_pos
    omega

theorem prefix_of_size_le (hs : s <+: t) (hu : u <+: t) (h : s.size ≤ u.size) : s <+: u := by
  rcases List.prefix_or_prefix_of_prefix hs hu with hsu | ⟨r, rfl⟩
  · exact hsu
  · rw [size_append] at h
    have hr : r = [] := eq_nil_of_size_eq_zero (by omega)
    rw [hr, List.append_nil]

theorem beginsAt_append : m.BeginsAt (s ++ t) (s.size + n) ↔ m.BeginsAt t n := by
  constructor
  · rintro ⟨u, hu, hsize⟩
    have hprefix : s <+: u :=
      prefix_of_size_le (List.prefix_append s t) ((List.prefix_append u m).trans hu) (by omega)
    obtain ⟨r, rfl⟩ := hprefix
    rw [List.append_assoc, List.prefix_append_right_inj] at hu
    rw [size_append] at hsize
    exact ⟨r, hu, by omega⟩
  · rintro ⟨r, hr, rfl⟩
    refine ⟨s ++ r, ?_, size_append s r⟩
    rwa [List.append_assoc, List.prefix_append_right_inj]

theorem beginsAt_zero : m.BeginsAt t 0 ↔ m <+: t := by
  constructor
  · rintro ⟨s, hs, hsize⟩
    obtain rfl := eq_nil_of_size_eq_zero hsize
    exact hs
  · intro h
    exact ⟨[], h, rfl⟩

theorem beginsAt_size : m.BeginsAt (s ++ t) s.size ↔ m <+: t := by
  have h : m.BeginsAt (s ++ t) (s.size + 0) ↔ m.BeginsAt t 0 := beginsAt_append
  rwa [Nat.add_zero, beginsAt_zero] at h

theorem beginsAt_cons :
    m.BeginsAt (c :: t) n ↔ n = 0 ∧ m <+: c :: t ∨ ∃ k, n = c.utf8Size + k ∧ m.BeginsAt t k := by
  constructor
  · rintro ⟨s, hs, rfl⟩
    cases s with
    | nil => exact .inl ⟨rfl, hs⟩
    | cons d s =>
      rw [List.cons_append, List.cons_prefix_cons] at hs
      exact .inr ⟨size s, by rw [hs.1, size_cons], s, hs.2, rfl⟩
  · rintro (⟨rfl, h⟩ | ⟨k, rfl, s, hs, rfl⟩)
    · exact beginsAt_zero.2 h
    · exact ⟨c :: s, List.cons_prefix_cons.2 ⟨rfl, hs⟩, rfl⟩

theorem BeginsAt.of_prefix (h : u.BeginsAt t n) (hm : m <+: u) : m.BeginsAt t n := by
  obtain ⟨s, hs, hsize⟩ := h
  exact ⟨s, ((List.prefix_append_right_inj s).2 hm).trans hs, hsize⟩

theorem BeginsAt.size_le (h : m.BeginsAt t n) : n + m.size ≤ t.size := by
  obtain ⟨s, ⟨u, rfl⟩, rfl⟩ := h
  simp only [size_append]
  omega

theorem exists_firstAt (h : m.BeginsAt t n) (hn : p ≤ n) : ∃ k, FirstAt m t p k := by
  classical
  exact ⟨_, Nat.isLeast_find ⟨n, hn, h⟩⟩

def dropBytes : Text → Nat → Text
  | [], _ => []
  | c :: t, n => if n = 0 then c :: t else dropBytes t (n - c.utf8Size)

def takeBytes : Text → Nat → Text
  | [], _ => []
  | c :: t, n => if n = 0 then [] else c :: takeBytes t (n - c.utf8Size)

def slice (t : Text) (start stop : Nat) : Text :=
  (t.dropBytes start).takeBytes (stop - start)

/-- What the spans leave of a text from an offset on. -/
def gapsFrom (t : Text) (start : Nat) : List (Nat × Nat) → List Text
  | [] => [t.slice start t.size]
  | (a, z) :: spans => t.slice start a :: gapsFrom t z spans

def gaps (t : Text) (spans : List (Nat × Nat)) : List Text :=
  gapsFrom t 0 spans

/-- The gaps of a text with other texts between them. -/
def alternate : List Text → List Text → Text
  | g :: gs, t :: ts => g ++ t ++ alternate gs ts
  | gs, [] => gs.flatten
  | [], ts => ts.flatten

theorem length_alternate (gs ts : List Text) :
    (alternate gs ts).length = gs.flatten.length + ts.flatten.length := by
  induction gs generalizing ts with
  | nil => cases ts <;> simp [alternate]
  | cons g gs ih =>
    cases ts with
    | nil => rfl
    | cons s ts =>
      rw [alternate, List.length_append, List.length_append, ih, List.flatten_cons, List.flatten_cons,
        List.length_append, List.length_append]
      omega

theorem gapsFrom_ne_nil (t : Text) (start : Nat) (spans : List (Nat × Nat)) :
    t.gapsFrom start spans ≠ [] := by
  cases spans <;> exact List.cons_ne_nil _ _

theorem dropBytes_size_append (s t : Text) : (s ++ t).dropBytes s.size = t := by
  induction s with
  | nil => cases t <;> rfl
  | cons c s ih =>
    have hc := c.utf8Size_pos
    rw [List.cons_append, dropBytes, size_cons, if_neg (by omega), Nat.add_sub_cancel_left, ih]

theorem takeBytes_size_append (s t : Text) : (s ++ t).takeBytes s.size = s := by
  induction s with
  | nil => cases t <;> rfl
  | cons c s ih =>
    have hc := c.utf8Size_pos
    rw [List.cons_append, takeBytes, size_cons, if_neg (by omega), Nat.add_sub_cancel_left, ih]

theorem slice_zero (t : Text) (n : Nat) : t.slice 0 n = t.takeBytes n := by
  cases t <;> rfl

theorem slice_append (s g t : Text) : (s ++ (g ++ t)).slice s.size (s.size + g.size) = g := by
  rw [slice, dropBytes_size_append, Nat.add_sub_cancel_left, takeBytes_size_append]

theorem slice_end (s g : Text) : (s ++ g).slice s.size (s ++ g).size = g := by
  have h := slice_append s g []
  rwa [List.append_nil, ← size_append] at h

end TildeMerge.Text
