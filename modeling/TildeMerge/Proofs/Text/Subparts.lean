import TildeMerge.Proofs.Text.Decoding
import Mathlib.Data.List.Infix

namespace TildeMerge

namespace Utf8

variable {s : State} {b : UInt8} {value owed low high n : Nat} {w part rest bytes : Bytes} {c : Char}
variable {x : Text}

def StartsChar (bytes : Bytes) : Prop :=
  ∃ c, bytes <+: String.utf8EncodeChar c

/-- Bytes at which no character stands, and which are replaced as a whole: no more of those that follow could
belong to the same character. -/
structure MaximalPart (part rest : Bytes) : Prop where
  no_char : ∀ c, ¬ String.utf8EncodeChar c <+: part ++ rest
  ne_nil : part ≠ []
  starts : StartsChar part ∨ part.length = 1
  longest : ∀ w, w <+: part ++ rest → StartsChar w → w.length ≤ part.length

/-- The texts of bytes: characters where there are some, and a replacement for every other part. -/
inductive Reads : Bytes → Text → Prop
  | nil : Reads [] []
  | char (c : Char) {rest : Bytes} {x : Text} (h : Reads rest x) :
      Reads (String.utf8EncodeChar c ++ rest) (c :: x)
  | damage {part rest : Bytes} {x : Text} (hpart : MaximalPart part rest) (h : Reads rest x) :
      Reads (part ++ rest) (replacement :: x)

/-- What is known of a first byte, by the number of bytes that its character has. The range of the second byte
leaves out what is written too long, surrogates and what is no code point. -/
inductive FirstOf (b : UInt8) : First → Prop
  | one (hhigh : b.toNat < 0x80) : FirstOf b (.whole (Char.ofNat b.toNat))
  | two (hlow : 0xC2 ≤ b.toNat) (hhigh : b.toNat < 0xE0) :
      FirstOf b (.longer (.inside (b.toNat - 0xC0) 1 0x80 0xBF))
  | three {low high : Nat} (hlow : 0xE0 ≤ b.toNat) (hhigh : b.toNat < 0xF0)
      (hrange : 0x80 ≤ low ∧ low ≤ high ∧ high ≤ 0xBF) (hlong : b.toNat = 0xE0 → 0xA0 ≤ low)
      (hsurrogate : b.toNat = 0xED → high ≤ 0x9F) :
      FirstOf b (.longer (.inside (b.toNat - 0xE0) 2 low high))
  | four {low high : Nat} (hlow : 0xF0 ≤ b.toNat) (hhigh : b.toNat < 0xF5)
      (hrange : 0x80 ≤ low ∧ low ≤ high ∧ high ≤ 0xBF) (hlong : b.toNat = 0xF0 → 0x90 ≤ low)
      (habove : b.toNat = 0xF4 → high ≤ 0x8F) :
      FirstOf b (.longer (.inside (b.toNat - 0xF0) 3 low high))
  | bad : FirstOf b .bad

theorem firstOf (b : UInt8) : FirstOf b (first b) := by
  unfold first
  dsimp only
  split
  · exact .one (by omega)
  split
  · exact .bad
  split
  · exact .two (by omega) (by omega)
  split
  · refine .three (by omega) (by omega) ?_ ?_ ?_
    · simp only [beq_iff_eq]
      split <;> split <;> omega
    · intro hb
      simp [hb]
    · intro hb
      simp [hb]
  split
  · refine .four (by omega) (by omega) ?_ ?_ ?_
    · simp only [beq_iff_eq]
      split <;> split <;> omega
    · intro hb
      simp [hb]
    · intro hb
      simp [hb]
  · exact .bad

theorem toNat_charOfNat (h : n.isValidChar) : (Char.ofNat n).toNat = n := by
  rw [Char.ofNat, dif_pos h]
  rfl

theorem encodeChar_two {b₁ b₂ : UInt8} (h : 0x80 ≤ n) (h' : n < 0x800)
    (h₁ : n / 64 % 32 + 192 = b₁.toNat) (h₂ : n % 64 + 128 = b₂.toNat) :
    String.utf8EncodeChar (Char.ofNat n) = [b₁, b₂] := by
  have hc : (Char.ofNat n).toNat = n := toNat_charOfNat (.inl (by omega))
  rw [String.utf8EncodeChar.eq_1]
  simp only [Char.toNat_val, hc]
  rw [if_neg (by omega), if_pos (by omega), h₁, h₂, UInt8.ofNat_toNat, UInt8.ofNat_toNat]

theorem encodeChar_three {b₁ b₂ b₃ : UInt8} (h : 0x800 ≤ n) (h' : n < 0x10000)
    (hvalid : n < 0xD800 ∨ 0xDFFF < n) (h₁ : n / 4096 % 16 + 224 = b₁.toNat)
    (h₂ : n / 64 % 64 + 128 = b₂.toNat) (h₃ : n % 64 + 128 = b₃.toNat) :
    String.utf8EncodeChar (Char.ofNat n) = [b₁, b₂, b₃] := by
  have hc : (Char.ofNat n).toNat = n := toNat_charOfNat (by unfold Nat.isValidChar; omega)
  rw [String.utf8EncodeChar.eq_1]
  simp only [Char.toNat_val, hc]
  rw [if_neg (by omega), if_neg (by omega), if_pos (by omega), h₁, h₂, h₃, UInt8.ofNat_toNat,
    UInt8.ofNat_toNat, UInt8.ofNat_toNat]

theorem encodeChar_four {b₁ b₂ b₃ b₄ : UInt8} (h : 0x10000 ≤ n) (h' : n < 0x110000)
    (h₁ : n / 262144 % 8 + 240 = b₁.toNat) (h₂ : n / 4096 % 64 + 128 = b₂.toNat)
    (h₃ : n / 64 % 64 + 128 = b₃.toNat) (h₄ : n % 64 + 128 = b₄.toNat) :
    String.utf8EncodeChar (Char.ofNat n) = [b₁, b₂, b₃, b₄] := by
  have hc : (Char.ofNat n).toNat = n := toNat_charOfNat (by unfold Nat.isValidChar; omega)
  rw [String.utf8EncodeChar.eq_1]
  simp only [Char.toNat_val, hc]
  rw [if_neg (by omega), if_neg (by omega), if_neg (by omega), h₁, h₂, h₃, h₄, UInt8.ofNat_toNat,
    UInt8.ofNat_toNat, UInt8.ofNat_toNat, UInt8.ofNat_toNat]

theorem byte_of_completes (h : Completes (.inside value 1 low high) bytes c) :
    ∃ b, bytes = [b] ∧ (low ≤ b.toNat ∧ b.toNat ≤ high) ∧
      Char.ofNat (value * 64 + (b.toNat - 0x80)) = c := by
  cases bytes with
  | nil => cases h
  | cons b rest =>
    obtain ⟨hrange, rfl, hc⟩ := h
    exact ⟨b, rfl, hrange, hc⟩

theorem bytes_of_completes (howed : 1 < owed) (h : Completes (.inside value owed low high) bytes c) :
    ∃ b rest, bytes = b :: rest ∧ (low ≤ b.toNat ∧ b.toNat ≤ high) ∧
      Completes (.inside (value * 64 + (b.toNat - 0x80)) (owed - 1) 0x80 0xBF) rest c := by
  cases bytes with
  | nil => cases h
  | cons b rest =>
    obtain ⟨hrange, h⟩ := h
    rw [if_neg (Nat.not_le.2 howed)] at h
    exact ⟨b, rest, rfl, hrange, h⟩

theorem encodeChar_of_completes (hb : first b = .longer s) (hs : Completes s rest c) :
    String.utf8EncodeChar c = b :: rest := by
  have hfirst := firstOf b
  rw [hb] at hfirst
  cases hfirst with
  | two hlow hhigh =>
    obtain ⟨b₁, rfl, ⟨hlow₁, hhigh₁⟩, hc⟩ := byte_of_completes hs
    rw [← hc]
    exact encodeChar_two (by omega) (by omega) (by omega) (by omega)
  | three hlow hhigh hrange hlong hsurrogate =>
    obtain ⟨b₁, rest, rfl, ⟨hlow₁, hhigh₁⟩, hs⟩ := bytes_of_completes (by decide) hs
    obtain ⟨b₂, rfl, ⟨hlow₂, hhigh₂⟩, hc⟩ := byte_of_completes hs
    rw [← hc]
    exact encodeChar_three (by omega) (by omega) (by omega) (by omega) (by omega) (by omega)
  | four hlow hhigh hrange hlong habove =>
    obtain ⟨b₁, rest, rfl, ⟨hlow₁, hhigh₁⟩, hs⟩ := bytes_of_completes (by decide) hs
    obtain ⟨b₂, rest, rfl, ⟨hlow₂, hhigh₂⟩, hs⟩ := bytes_of_completes (by decide) hs
    obtain ⟨b₃, rfl, ⟨hlow₃, hhigh₃⟩, hc⟩ := byte_of_completes hs
    rw [← hc]
    exact encodeChar_four (by omega) (by omega) (by omega) (by omega) (by omega) (by omega)

theorem encodeChar_of_whole (h : first b = .whole c) : String.utf8EncodeChar c = [b] := by
  have hfirst := firstOf b
  rw [h] at hfirst
  cases hfirst with
  | one hhigh =>
    have hb : (Char.ofNat b.toNat).toNat = b.toNat := toNat_charOfNat (.inl (by omega))
    rw [String.utf8EncodeChar.eq_1]
    simp only [Char.toNat_val, hb]
    rw [if_pos (by omega), UInt8.ofNat_toNat]

theorem encodeChar_ne_of_bad (h : first b = .bad) (c : Char) (rest : Bytes) :
    String.utf8EncodeChar c ≠ b :: rest := by
  intro hc
  obtain ⟨b', rest', hc', hfirst⟩ := completes_of_encodeChar c
  obtain ⟨rfl, rfl⟩ := List.cons.inj (hc'.symm.trans hc)
  rcases hfirst with ⟨hwhole, -⟩ | ⟨s, hlonger, -⟩
  · cases h.symm.trans hwhole
  · cases h.symm.trans hlonger

theorem completes_iff_encodeChar (h : first b = .longer s) (rest : Bytes) (c : Char) :
    Completes s rest c ↔ String.utf8EncodeChar c = b :: rest := by
  refine ⟨encodeChar_of_completes h, fun hc ↦ ?_⟩
  obtain ⟨b', rest', hc', hfirst⟩ := completes_of_encodeChar c
  obtain ⟨rfl, rfl⟩ := List.cons.inj (hc'.symm.trans hc)
  rcases hfirst with ⟨hwhole, -⟩ | ⟨s', hlonger, hs⟩
  · cases h.symm.trans hwhole
  · obtain rfl := First.longer.inj (h.symm.trans hlonger)
    exact hs

theorem eq_of_encodeChar_prefix {d : Char} (h : String.utf8EncodeChar c <+: String.utf8EncodeChar d) :
    c = d := by
  obtain ⟨rest, hrest⟩ := h
  have hd := decodeFrom_encodeChar d []
  rw [← hrest, List.append_assoc, decodeFrom_encodeChar] at hd
  exact (List.cons.inj hd).1

def State.Open : State → Prop
  | .between => False
  | .inside _ owed low high => 0 < owed ∧ 0x80 ≤ low ∧ low ≤ high ∧ high ≤ 0xBF

theorem first_open (h : first b = .longer s) : s.Open := by
  have hfirst := firstOf b
  rw [h] at hfirst
  cases hfirst with
  | two => exact ⟨by decide, by decide, by decide, by decide⟩
  | three _ _ hrange => exact ⟨by decide, hrange⟩
  | four _ _ hrange => exact ⟨by decide, hrange⟩

theorem exists_completes (h : s.Open) : ∃ rest c, Completes s rest c := by
  cases s with
  | between => cases h
  | inside value owed low high =>
    obtain ⟨howed, -, hle, hhigh⟩ := h
    induction owed generalizing value low high with
    | zero => cases howed
    | succ owed ih =>
      have hlow : (UInt8.ofNat low).toNat = low := toNat_ofNat (by omega)
      by_cases hone : owed + 1 ≤ 1
      · refine ⟨[UInt8.ofNat low], Char.ofNat (value * 64 + (low - 0x80)), ?_⟩
        rw [Completes, hlow, if_pos hone]
        exact ⟨⟨Nat.le_refl low, hle⟩, rfl, rfl⟩
      · obtain ⟨rest, c, h⟩ := ih (value * 64 + (low - 0x80)) 0x80 0xBF (by omega) (by decide) (by decide)
        refine ⟨UInt8.ofNat low :: rest, c, ?_⟩
        rw [Completes, hlow, if_neg hone]
        exact ⟨⟨Nat.le_refl low, hle⟩, h⟩

/-- The bytes that have been read begin a character, and the state knows which bytes complete it. -/
structure Begins (w : Bytes) (s : State) : Prop where
  ne_nil : w ≠ []
  isOpen : s.Open
  completes_iff : ∀ rest c, Completes s rest c ↔ String.utf8EncodeChar c = w ++ rest

theorem begins_first (h : first b = .longer s) : Begins [b] s where
  ne_nil := List.cons_ne_nil b []
  isOpen := first_open h
  completes_iff := completes_iff_encodeChar h

namespace Begins

theorem next (h : Begins w (.inside value owed low high)) (howed : 1 < owed) (hlow : low ≤ b.toNat)
    (hhigh : b.toNat ≤ high) :
    Begins (w ++ [b]) (.inside (value * 64 + (b.toNat - 0x80)) (owed - 1) 0x80 0xBF) where
  ne_nil := List.append_ne_nil_of_right_ne_nil w (List.cons_ne_nil b [])
  isOpen := ⟨by omega, by decide, by decide, by decide⟩
  completes_iff rest c := by
    rw [List.append_assoc, List.singleton_append, ← h.completes_iff, Completes,
      if_neg (Nat.not_le.2 howed)]
    exact ⟨fun hrest ↦ ⟨⟨hlow, hhigh⟩, hrest⟩, fun hrest ↦ hrest.2⟩

theorem startsChar (h : Begins w s) : StartsChar w := by
  obtain ⟨rest, c, hc⟩ := exists_completes h.isOpen
  exact ⟨c, rest, ((h.completes_iff rest c).1 hc).symm⟩

theorem no_char (h : Begins w s) (c : Char) : ¬ String.utf8EncodeChar c <+: w := by
  intro hc
  obtain ⟨rest, d, hd⟩ := exists_completes h.isOpen
  have hw : String.utf8EncodeChar d = w ++ rest := (h.completes_iff rest d).1 hd
  obtain rfl : c = d := by
    apply eq_of_encodeChar_prefix
    rw [hw]
    exact hc.trans (List.prefix_append w rest)
  have hnil : rest = [] := by
    have hlength := hc.length_le
    rw [hw, List.length_append] at hlength
    exact List.eq_nil_of_length_eq_zero (by omega)
  subst hnil
  cases s <;> cases hd

theorem maximalPart (h : Begins w s) (hstuck : ∀ b r, rest = b :: r → ¬ StartsChar (w ++ [b])) :
    MaximalPart w rest := by
  have hlongest : ∀ v, v <+: w ++ rest → StartsChar v → v.length ≤ w.length := by
    intro v hv hstarts
    rw [← Nat.not_lt]
    intro hlong
    obtain ⟨r, rfl⟩ : w <+: v :=
      List.prefix_of_prefix_length_le (List.prefix_append w rest) hv (by omega)
    cases r with
    | nil => simp at hlong
    | cons b r =>
      obtain ⟨r', hr'⟩ := (List.prefix_append_right_inj w).1 hv
      obtain ⟨c, hc⟩ := hstarts
      refine hstuck b (r ++ r') hr'.symm ⟨c, List.IsPrefix.trans ?_ hc⟩
      exact ⟨r, by simp⟩
  refine ⟨?_, h.ne_nil, .inl h.startsChar, hlongest⟩
  intro c hc
  apply h.no_char c
  exact List.prefix_of_prefix_length_le hc (List.prefix_append w rest)
    (hlongest _ hc ⟨c, List.prefix_refl _⟩)

theorem not_startsChar (h : Begins w (.inside value owed low high))
    (hout : ¬ (low ≤ b.toNat ∧ b.toNat ≤ high)) : ¬ StartsChar (w ++ [b]) := by
  rintro ⟨c, rest, hc⟩
  rw [List.append_assoc, List.singleton_append] at hc
  exact hout ((h.completes_iff _ c).2 hc.symm).1

theorem reads (h : Begins w s) (bytes : Bytes) :
    (∃ c rest, w ++ bytes = String.utf8EncodeChar c ++ rest) ∨
      ∃ part rest, w ++ bytes = part ++ rest ∧ MaximalPart part rest ∧
        decodeFrom s bytes = replacement :: decodeFrom .between rest := by
  induction bytes generalizing w s with
  | nil =>
    refine .inr ⟨w, [], rfl, h.maximalPart nofun, ?_⟩
    cases s with
    | between => cases h.isOpen
    | inside => rfl
  | cons b bytes ih =>
    cases s with
    | between => cases h.isOpen
    | inside value owed low high =>
      by_cases hrange : low ≤ b.toNat ∧ b.toNat ≤ high
      · by_cases hone : owed ≤ 1
        · obtain ⟨c, hc⟩ : ∃ c, Completes (.inside value owed low high) [b] c := by
            refine ⟨Char.ofNat (value * 64 + (b.toNat - 0x80)), ?_⟩
            rw [Completes, if_pos hone]
            exact ⟨hrange, rfl, rfl⟩
          refine .inl ⟨c, bytes, ?_⟩
          rw [(h.completes_iff [b] c).1 hc, List.append_assoc, List.singleton_append]
        · have hrest := ih (h.next (Nat.lt_of_not_le hone) hrange.1 hrange.2)
          have hstep : decodeFrom (.inside value owed low high) (b :: bytes) =
              decodeFrom (.inside (value * 64 + (b.toNat - 0x80)) (owed - 1) 0x80 0xBF) bytes := by
            simp [decodeFrom, step, hrange, hone]
          rwa [List.append_assoc, List.singleton_append, ← hstep] at hrest
      · refine .inr ⟨w, b :: bytes, rfl, h.maximalPart ?_, ?_⟩
        · intro b' r hr
          obtain ⟨rfl, rfl⟩ := List.cons.inj hr
          exact h.not_startsChar hrange
        · simp [decodeFrom, step, hrange]

end Begins

theorem maximalPart_of_bad (h : first b = .bad) (rest : Bytes) : MaximalPart [b] rest := by
  have hnone (c : Char) (v : Bytes) : ¬ b :: v <+: String.utf8EncodeChar c := by
    rintro ⟨r, hr⟩
    exact encodeChar_ne_of_bad h c (v ++ r) hr.symm
  refine ⟨?_, List.cons_ne_nil b [], .inr rfl, ?_⟩
  · intro c hc
    obtain ⟨b', bs, hc', -⟩ := completes_of_encodeChar c
    rw [hc'] at hc
    obtain ⟨rfl, -⟩ := List.cons_prefix_cons.1 hc
    exact encodeChar_ne_of_bad h c bs hc'
  · intro v hv hstarts
    cases v with
    | nil => exact Nat.zero_le _
    | cons b' v =>
      obtain ⟨rfl, -⟩ := List.cons_prefix_cons.1 hv
      obtain ⟨c, hc⟩ := hstarts
      exact absurd hc (hnone c v)

theorem decodeFrom_unit {bytes : Bytes} (h : bytes ≠ []) :
    (∃ c rest, bytes = String.utf8EncodeChar c ++ rest) ∨
      ∃ part rest, bytes = part ++ rest ∧ MaximalPart part rest ∧
        decodeFrom .between bytes = replacement :: decodeFrom .between rest := by
  cases bytes with
  | nil => exact absurd rfl h
  | cons b rest =>
    cases hb : first b with
    | whole c => exact .inl ⟨c, rest, by rw [encodeChar_of_whole hb, List.singleton_append]⟩
    | longer s =>
      have hstep : decodeFrom .between (b :: rest) = decodeFrom s rest := by
        simp [decodeFrom, step, start, hb]
      rw [hstep]
      exact (begins_first hb).reads rest
    | bad =>
      refine .inr ⟨[b], rest, rfl, maximalPart_of_bad hb rest, ?_⟩
      simp [decodeFrom, step, start, hb]

theorem MaximalPart.length_le {part' rest' : Bytes} (h : MaximalPart part rest)
    (h' : MaximalPart part' rest') (heq : part ++ rest = part' ++ rest') :
    part'.length ≤ part.length := by
  rcases h'.starts with hstarts | hone
  · apply h.longest part' _ hstarts
    rw [heq]
    exact List.prefix_append part' rest'
  · rw [hone]
    exact List.length_pos_iff.2 h.ne_nil

theorem Reads.eq (h : Reads bytes x) : x = decodeLossy bytes := by
  induction h with
  | nil => rfl
  | char c h ih => rw [ih, decodeLossy, decodeLossy, decodeFrom_encodeChar]
  | @damage part rest x hpart h ih =>
    have hne : part ++ rest ≠ [] := List.append_ne_nil_of_left_ne_nil hpart.ne_nil rest
    rcases decodeFrom_unit hne with ⟨c, rest', hc⟩ | ⟨part', rest', heq, hpart', hdecode⟩
    · exact absurd ⟨rest', hc.symm⟩ (hpart.no_char c)
    · have hlength : part.length = part'.length :=
        Nat.le_antisymm (hpart'.length_le hpart heq.symm) (hpart.length_le hpart' heq)
      obtain ⟨rfl, rfl⟩ := List.append_inj heq hlength
      rw [decodeLossy, hdecode, ih]
      rfl

theorem reads_decodeLossy (bytes : Bytes) : Reads bytes (decodeLossy bytes) := by
  induction hn : bytes.length using Nat.strong_induction_on generalizing bytes with
  | _ n ih =>
    subst hn
    by_cases hne : bytes = []
    · subst hne
      exact .nil
    rcases decodeFrom_unit hne with ⟨c, rest, rfl⟩ | ⟨part, rest, rfl, hpart, hdecode⟩
    · rw [decodeLossy, decodeFrom_encodeChar]
      obtain ⟨b, bs, hc, -⟩ := completes_of_encodeChar c
      refine .char c (ih rest.length ?_ rest rfl)
      rw [hc, List.length_append, List.length_cons]
      omega
    · rw [decodeLossy, hdecode]
      refine .damage hpart (ih rest.length ?_ rest rfl)
      have hpos := List.length_pos_iff.2 hpart.ne_nil
      rw [List.length_append]
      omega

/-- The decoder puts one replacement character for every maximal part that is no character. -/
theorem reads_iff : Reads bytes x ↔ x = decodeLossy bytes := by
  refine ⟨Reads.eq, ?_⟩
  rintro rfl
  exact reads_decodeLossy bytes

def IsContinuation (b : UInt8) : Prop :=
  0x80 ≤ b.toNat ∧ b.toNat ≤ 0xBF

instance : DecidablePred IsContinuation := fun b ↦
  inferInstanceAs (Decidable (0x80 ≤ b.toNat ∧ b.toNat ≤ 0xBF))

theorem first_of_continuation (h : IsContinuation b) : first b = .bad := by
  obtain ⟨hlow, hhigh⟩ := h
  rw [first, if_neg (by omega), if_pos (by omega)]

theorem isContinuation_of_completes (hs : s.Open) (h : Completes s bytes c) :
    ∀ b ∈ bytes, IsContinuation b := by
  induction bytes generalizing s with
  | nil => exact List.forall_mem_nil _
  | cons b bytes ih =>
    cases s with
    | between => cases hs
    | inside value owed low high =>
      obtain ⟨-, hlow, -, hhigh⟩ := hs
      obtain ⟨⟨hleft, hright⟩, hrest⟩ := h
      refine List.forall_mem_cons.2 ⟨⟨Nat.le_trans hlow hleft, Nat.le_trans hright hhigh⟩, ?_⟩
      split at hrest
      · rw [hrest.1]
        exact List.forall_mem_nil _
      · have hopen : State.Open (.inside (value * 64 + (b.toNat - 0x80)) (owed - 1) 0x80 0xBF) :=
          ⟨by omega, by decide, by decide, by decide⟩
        exact ih hopen hrest

theorem exists_encodeChar_cons (c : Char) : ∃ b rest, String.utf8EncodeChar c = b :: rest ∧
    ¬ IsContinuation b ∧ ∀ d ∈ rest, IsContinuation d := by
  obtain ⟨b, rest, hc, hfirst⟩ := completes_of_encodeChar c
  refine ⟨b, rest, hc, fun hb ↦ encodeChar_ne_of_bad (first_of_continuation hb) c rest hc, ?_⟩
  rcases hfirst with ⟨-, rfl⟩ | ⟨s, hlonger, hcompletes⟩
  · exact List.forall_mem_nil _
  · exact isContinuation_of_completes (first_open hlonger) hcompletes

end Utf8

end TildeMerge
