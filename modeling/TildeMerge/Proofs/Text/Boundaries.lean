import TildeMerge.Proofs.Text.Encodings
import TildeMerge.Proofs.Text.Lines
import TildeMerge.Proofs.Text.Offsets
import TildeMerge.Proofs.Text.Subparts

namespace TildeMerge

namespace Utf8

theorem length_encode (t : Text) : (encode t).length = t.size := by
  induction t with
  | nil => rfl
  | cons c t ih =>
    have hc : (String.utf8EncodeChar c).length = c.utf8Size := String.length_utf8EncodeChar c
    rw [encode, List.flatMap_cons, List.length_append, hc, Text.size_cons, ← ih]
    rfl

theorem decode?_encode (t : Text) : decode? (encode t) = some t := by
  simp [decode?, decodeLossy_encode]

end Utf8

namespace Text

open Utf8

variable {c : Char} {s t l : Text} {n start stop : Nat} {spans : List (Nat × Nat)}

/-- The bytes of the text can be parted at the offset: at one of the ends, or before a byte that does not
stand inside a character. -/
def IsBoundary (t : Text) (n : Nat) : Prop :=
  n = 0 ∨ n = (encode t).length ∨ ∃ b ∈ (encode t)[n]?, ¬ IsContinuation b

/-- The range has its ends in order, within the bytes of the text and at boundaries. -/
structure CanCut (t : Text) (start stop : Nat) : Prop where
  ordered : start ≤ stop
  stop_le : stop ≤ (encode t).length
  isBoundary_start : t.IsBoundary start
  isBoundary_stop : t.IsBoundary stop

instance : Decidable (t.IsBoundary n) :=
  inferInstanceAs (Decidable (_ ∨ _ ∨ _))

theorem canCut_iff_and : t.CanCut start stop ↔
    start ≤ stop ∧ stop ≤ (encode t).length ∧ t.IsBoundary start ∧ t.IsBoundary stop := by
  constructor
  · intro h
    exact ⟨h.ordered, h.stop_le, h.isBoundary_start, h.isBoundary_stop⟩
  · rintro ⟨hordered, hle, hstart, hstop⟩
    exact ⟨hordered, hle, hstart, hstop⟩

instance : Decidable (t.CanCut start stop) :=
  decidable_of_iff _ canCut_iff_and.symm

theorem utf8Size_le_of_isBoundary (h : IsBoundary (c :: t) n) (hn : n ≠ 0) : c.utf8Size ≤ n := by
  obtain ⟨b, rest, hc, -, hrest⟩ := exists_encodeChar_cons c
  have hsize : c.utf8Size = rest.length + 1 := by
    rw [← String.length_utf8EncodeChar, hc, List.length_cons]
  rcases h with hzero | hend | ⟨d, hd, hno⟩
  · exact absurd hzero hn
  · rw [hend, length_encode, size_cons]
    exact Nat.le_add_right _ _
  · by_contra hlt
    obtain ⟨k, rfl⟩ := Nat.exists_eq_succ_of_ne_zero hn
    rw [encode, List.flatMap_cons, hc, List.cons_append, List.getElem?_cons_succ,
      List.getElem?_append_left (by omega)] at hd
    exact hno (hrest d (List.mem_of_getElem? hd))

theorem isBoundary_cons : IsBoundary (c :: t) (c.utf8Size + n) ↔ t.IsBoundary n := by
  have hc := c.utf8Size_pos
  have hbyte : (encode (c :: t))[c.utf8Size + n]? = (encode t)[n]? := by
    rw [encode, List.flatMap_cons, ← String.length_utf8EncodeChar c,
      List.getElem?_append_right (Nat.le_add_right _ n), Nat.add_sub_cancel_left]
    rfl
  rw [IsBoundary, IsBoundary, hbyte, length_encode, length_encode, size_cons]
  constructor
  · rintro (hzero | hend | hfirst)
    · omega
    · exact .inr (.inl (Nat.add_left_cancel hend))
    · exact .inr (.inr hfirst)
  · rintro (rfl | rfl | hfirst)
    · cases t with
      | nil => exact .inr (.inl rfl)
      | cons d t =>
        obtain ⟨b, rest, hd, hb, -⟩ := exists_encodeChar_cons d
        refine .inr (.inr ⟨b, ?_, hb⟩)
        rw [encode, List.flatMap_cons, hd]
        rfl
    · exact .inr (.inl rfl)
    · exact .inr (.inr hfirst)

theorem isBoundary_iff : t.IsBoundary n ↔ ∃ s, s <+: t ∧ size s = n := by
  induction t generalizing n with
  | nil =>
    constructor
    · rintro (hzero | hend | ⟨b, hb, -⟩)
      · exact ⟨[], List.nil_prefix, hzero.symm⟩
      · exact ⟨[], List.nil_prefix, hend.symm⟩
      · cases hb
    · rintro ⟨s, hs, rfl⟩
      rw [List.prefix_nil.1 hs]
      exact .inl rfl
  | cons c t ih =>
    constructor
    · intro h
      by_cases hn : n = 0
      · exact ⟨[], List.nil_prefix, hn.symm⟩
      · obtain ⟨k, rfl⟩ := Nat.exists_eq_add_of_le (utf8Size_le_of_isBoundary h hn)
        obtain ⟨s, hs, rfl⟩ := ih.1 (isBoundary_cons.1 h)
        exact ⟨c :: s, List.cons_prefix_cons.2 ⟨rfl, hs⟩, size_cons c s⟩
    · rintro ⟨s, hs, rfl⟩
      cases s with
      | nil => exact .inl rfl
      | cons d s =>
        obtain ⟨rfl, hrest⟩ := List.cons_prefix_cons.1 hs
        exact isBoundary_cons.2 (ih.2 ⟨s, hrest, rfl⟩)

/-- The ranges that can be cut out of a text are those of its parts. -/
theorem canCut_iff : t.CanCut start stop ↔
    ∃ s g u, t = s ++ (g ++ u) ∧ size s = start ∧ size (s ++ g) = stop := by
  constructor
  · rintro ⟨hle, -, hstart, hstop⟩
    obtain ⟨s, hs, rfl⟩ := isBoundary_iff.1 hstart
    obtain ⟨w, hw, rfl⟩ := isBoundary_iff.1 hstop
    obtain ⟨g, rfl⟩ := prefix_of_size_le hs hw hle
    obtain ⟨u, rfl⟩ := hw
    exact ⟨s, g, u, List.append_assoc s g u, rfl, rfl⟩
  · rintro ⟨s, g, u, rfl, rfl, rfl⟩
    have hs : s <+: s ++ (g ++ u) := List.prefix_append s (g ++ u)
    have hg : s ++ g <+: s ++ (g ++ u) := ⟨u, List.append_assoc s g u⟩
    refine ⟨?_, ?_, isBoundary_iff.2 ⟨s, hs, rfl⟩, isBoundary_iff.2 ⟨s ++ g, hg, rfl⟩⟩
    · rw [size_append]
      exact Nat.le_add_right _ _
    · rw [length_encode, ← List.append_assoc, size_append (s ++ g)]
      exact Nat.le_add_right _ _

theorem canCut_append (s g u : Text) : CanCut (s ++ (g ++ u)) s.size (s ++ g).size :=
  canCut_iff.2 ⟨s, g, u, rfl, rfl, rfl⟩

theorem canCut_end (s g : Text) : CanCut (s ++ g) s.size (s ++ g).size :=
  canCut_iff.2 ⟨s, g, [], by rw [List.append_nil], rfl, rfl⟩

example : ¬ CanCut ['a', 'é'] 0 2 := by decide

/-- The text that the bytes in the range encode, if it can be cut out. -/
def cut? (t : Text) (start stop : Nat) : Option Text :=
  if t.CanCut start stop then Utf8.decode? (((encode t).drop start).take (stop - start)) else none

theorem encode_slice (h : t.CanCut start stop) :
    encode (t.slice start stop) = ((encode t).drop start).take (stop - start) := by
  obtain ⟨s, g, u, rfl, rfl, rfl⟩ := canCut_iff.1 h
  rw [size_append, slice_append, Nat.add_sub_cancel_left, encode_append, encode_append,
    ← length_encode s, List.drop_left, ← length_encode g, List.take_left]

theorem cut?_of_canCut (h : t.CanCut start stop) : t.cut? start stop = some (t.slice start stop) := by
  rw [cut?, if_pos h, ← encode_slice h, Utf8.decode?_encode]

theorem cut?_append (s g u : Text) : cut? (s ++ (g ++ u)) s.size (s ++ g).size = some g := by
  rw [cut?_of_canCut (canCut_append s g u), size_append, slice_append]

/-- What the spans leave of a text from an offset on can be cut out, each piece of it. -/
def CanCutGaps (t : Text) (start : Nat) : List (Nat × Nat) → Prop
  | [] => t.CanCut start t.size
  | (a, z) :: spans => t.CanCut start a ∧ t.CanCutGaps z spans

theorem CanCutGaps.exists_canCut (h : t.CanCutGaps start spans) : ∃ stop, t.CanCut start stop := by
  cases spans with
  | nil => exact ⟨t.size, h⟩
  | cons span spans => exact ⟨span.1, h.1⟩

theorem CanCutGaps.canCut (h : t.CanCutGaps start spans) :
    ∀ p ∈ spans, p.1 ≤ p.2 → t.CanCut p.1 p.2 := by
  induction spans generalizing start with
  | nil => exact List.forall_mem_nil _
  | cons span spans ih =>
    obtain ⟨hgap, hrest⟩ := h
    obtain ⟨n, hnext⟩ := hrest.exists_canCut
    refine List.forall_mem_cons.2 ⟨fun hle ↦ ?_, ih hrest⟩
    exact ⟨hle, hnext.ordered.trans hnext.stop_le, hgap.isBoundary_stop, hnext.isBoundary_start⟩

def findBreak : Text → Option Nat
  | [] => none
  | c :: t => if c = '\n' then some 0 else (findBreak t).map (c.utf8Size + ·)

def findLastBreak : Text → Option Nat
  | [] => none
  | c :: t =>
    match findLastBreak t with
    | some n => some (c.utf8Size + n)
    | none => if c = '\n' then some 0 else none

theorem findBreak_of_notMem (h : '\n' ∉ t) : t.findBreak = none := by
  induction t with
  | nil => rfl
  | cons c t ih =>
    rw [List.mem_cons, not_or] at h
    rw [findBreak, if_neg (Ne.symm h.1), ih h.2, Option.map_none]

theorem findBreak_append (h : '\n' ∉ s) (t : Text) : findBreak (s ++ '\n' :: t) = some s.size := by
  induction s with
  | nil => rfl
  | cons c s ih =>
    rw [List.mem_cons, not_or] at h
    rw [List.cons_append, findBreak, if_neg (Ne.symm h.1), ih h.2, Option.map_some, size_cons]

theorem findLastBreak_of_notMem (h : '\n' ∉ t) : t.findLastBreak = none := by
  induction t with
  | nil => rfl
  | cons c t ih =>
    rw [List.mem_cons, not_or] at h
    rw [findLastBreak, ih h.2]
    exact if_neg (Ne.symm h.1)

theorem findLastBreak_append (s : Text) (h : '\n' ∉ l) :
    findLastBreak (s ++ '\n' :: l) = some s.size := by
  induction s with
  | nil =>
    rw [List.nil_append, findLastBreak, findLastBreak_of_notMem h]
    rfl
  | cons c s ih =>
    rw [List.cons_append, findLastBreak, ih]
    rfl

theorem exists_of_findBreak (h : t.findBreak = some n) : ∃ s l, t = s ++ '\n' :: l ∧ size s = n := by
  by_cases ht : '\n' ∈ t
  · obtain ⟨s, l, rfl, hs⟩ := List.eq_append_cons_of_mem ht
    rw [findBreak_append hs] at h
    exact ⟨s, l, rfl, Option.some.inj h⟩
  · rw [findBreak_of_notMem ht] at h
    cases h

theorem exists_of_findLastBreak (h : t.findLastBreak = some n) :
    ∃ s l, t = s ++ '\n' :: l ∧ size s = n := by
  by_cases ht : '\n' ∈ t
  · obtain ⟨s, l, rfl, hl⟩ := exists_last_break ht
    rw [findLastBreak_append s hl] at h
    exact ⟨s, l, rfl, Option.some.inj h⟩
  · rw [findLastBreak_of_notMem ht] at h
    cases h

theorem canCut_firstLine (h : t.findBreak = some n) : t.CanCut 0 n := by
  obtain ⟨s, l, rfl, rfl⟩ := exists_of_findBreak h
  exact canCut_append [] s ('\n' :: l)

theorem canCut_between (hfirst : t.findBreak = some start) (hlast : t.findLastBreak = some stop)
    (hlt : start < stop) : t.CanCut (start + 1) stop := by
  obtain ⟨s, l, rfl, rfl⟩ := exists_of_findBreak hfirst
  obtain ⟨w, v, heq, rfl⟩ := exists_of_findLastBreak hlast
  have hbreak : size (s ++ ['\n']) = size s + 1 := size_append s ['\n']
  have hs : s ++ ['\n'] <+: s ++ '\n' :: l := ⟨l, List.append_assoc s ['\n'] l⟩
  have hw : w <+: s ++ '\n' :: l := ⟨'\n' :: v, heq.symm⟩
  obtain ⟨m, rfl⟩ := prefix_of_size_le hs hw (by omega)
  rw [heq, ← hbreak, List.append_assoc]
  exact canCut_append (s ++ ['\n']) m ('\n' :: v)

end Text

end TildeMerge
