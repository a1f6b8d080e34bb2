import TildeMerge.Proofs.Text.Encodings

namespace TildeMerge

namespace Utf8

variable {n value owed low high : Nat} {s : State} {part rest : Bytes} {c : Char}

theorem toNat_ofNat (h : n < 256) : (UInt8.ofNat n).toNat = n := by
  rw [UInt8.toNat_ofNat', Nat.mod_eq_of_lt h]

theorem first_of_two (h : 0xC2 ≤ n) (h' : n < 0xE0) :
    first (UInt8.ofNat n) = .longer (.inside (n - 0xC0) 1 0x80 0xBF) := by
  have h₁ : ¬n < 0x80 := by omega
  have h₂ : ¬n < 0xC2 := by omega
  simp only [first, toNat_ofNat (show n < 256 by omega), h₁, h₂, h', if_true, if_false]

theorem first_of_three (h : 0xE0 ≤ n) (h' : n < 0xF0) :
    first (UInt8.ofNat n) = .longer (.inside (n - 0xE0) 2 (if n == 0xE0 then 0xA0 else 0x80)
      (if n == 0xED then 0x9F else 0xBF)) := by
  have h₁ : ¬n < 0x80 := by omega
  have h₂ : ¬n < 0xC2 := by omega
  have h₃ : ¬n < 0xE0 := by omega
  simp only [first, toNat_ofNat (show n < 256 by omega), h₁, h₂, h₃, h', if_true, if_false]

theorem first_of_four (h : 0xF0 ≤ n) (h' : n < 0xF5) :
    first (UInt8.ofNat n) = .longer (.inside (n - 0xF0) 3 (if n == 0xF0 then 0x90 else 0x80)
      (if n == 0xF4 then 0x8F else 0xBF)) := by
  have h₁ : ¬n < 0x80 := by omega
  have h₂ : ¬n < 0xC2 := by omega
  have h₃ : ¬n < 0xE0 := by omega
  have h₄ : ¬n < 0xF0 := by omega
  simp only [first, toNat_ofNat (show n < 256 by omega), h₁, h₂, h₃, h₄, h', if_true, if_false]

/-- From the state the bytes are taken one by one, and the last of them completes the character. -/
def Completes : State → Bytes → Char → Prop
  | .inside value owed low high, b :: rest, c =>
    (low ≤ b.toNat ∧ b.toNat ≤ high) ∧
      if owed ≤ 1 then rest = [] ∧ Char.ofNat (value * 64 + (b.toNat - 0x80)) = c
      else Completes (.inside (value * 64 + (b.toNat - 0x80)) (owed - 1) 0x80 0xBF) rest c
  | _, _, _ => False

theorem completes_last (hn : n < 256) (hlow : low ≤ n) (hhigh : n ≤ high)
    (hvalue : value * 64 + (n - 0x80) = c.toNat) :
    Completes (.inside value 1 low high) [UInt8.ofNat n] c := by
  rw [Completes, toNat_ofNat hn, hvalue]
  exact ⟨⟨hlow, hhigh⟩, rfl, Char.ofNat_toNat c⟩

theorem completes_more (hn : n < 256) (hlow : low ≤ n) (hhigh : n ≤ high) (howed : 1 < owed)
    (h : Completes (.inside (value * 64 + (n - 0x80)) (owed - 1) 0x80 0xBF) rest c) :
    Completes (.inside value owed low high) (UInt8.ofNat n :: rest) c := by
  rw [Completes, toNat_ofNat hn, if_neg (Nat.not_le.2 howed)]
  exact ⟨⟨hlow, hhigh⟩, h⟩

theorem completes_of_encodeChar (c : Char) : ∃ b rest, String.utf8EncodeChar c = b :: rest ∧
    (first b = .whole c ∧ rest = [] ∨ ∃ s, first b = .longer s ∧ Completes s rest c) := by
  have hvalid : c.toNat < 0xD800 ∨ 0xDFFF < c.toNat ∧ c.toNat < 0x110000 := c.valid
  rw [String.utf8EncodeChar.eq_1]
  simp only [Char.toNat_val]
  generalize hn : c.toNat = n at hvalid
  split
  · refine ⟨_, _, rfl, .inl ⟨?_, rfl⟩⟩
    rw [first, toNat_ofNat (by omega), if_pos (by omega), ← hn, Char.ofNat_toNat]
  split
  · exact ⟨_, _, rfl, .inr ⟨_, first_of_two (by omega) (by omega),
      completes_last (by omega) (by omega) (by omega) (by omega)⟩⟩
  split
  -- The range of the second byte leaves out what fewer bytes can hold, and the surrogates.
  · have hlow : (if n / 4096 % 16 + 224 == 0xE0 then 0xA0 else 0x80) ≤ n / 64 % 64 + 128 := by
      simp only [beq_iff_eq]
      split <;> omega
    have hhigh : n / 64 % 64 + 128 ≤ (if n / 4096 % 16 + 224 == 0xED then 0x9F else 0xBF) := by
      simp only [beq_iff_eq]
      split <;> omega
    exact ⟨_, _, rfl, .inr ⟨_, first_of_three (by omega) (by omega),
      completes_more (by omega) hlow hhigh (by omega)
        (completes_last (by omega) (by omega) (by omega) (by omega))⟩⟩
  -- Here it also leaves out what lies above the last code point.
  · have hlow : (if n / 262144 % 8 + 240 == 0xF0 then 0x90 else 0x80) ≤ n / 4096 % 64 + 128 := by
      simp only [beq_iff_eq]
      split <;> omega
    have hhigh : n / 4096 % 64 + 128 ≤ (if n / 262144 % 8 + 240 == 0xF4 then 0x8F else 0xBF) := by
      simp only [beq_iff_eq]
      split <;> omega
    exact ⟨_, _, rfl, .inr ⟨_, first_of_four (by omega) (by omega),
      completes_more (by omega) hlow hhigh (by omega)
        (completes_more (by omega) (by omega) (by omega) (by omega)
          (completes_last (by omega) (by omega) (by omega) (by omega)))⟩⟩

theorem decodeFrom_of_completes (h : Completes s part c) (rest : Bytes) :
    decodeFrom s (part ++ rest) = c :: decodeFrom .between rest := by
  induction part generalizing s with
  | nil => cases s <;> cases h
  | cons b part ih =>
    cases s with
    | between => cases h
    | inside value owed low high =>
      obtain ⟨hrange, h⟩ := h
      split at h
      · rename_i howed
        obtain ⟨rfl, hc⟩ := h
        simp [decodeFrom, step, hrange, howed, hc]
      · rename_i howed
        simp [decodeFrom, step, hrange, howed, ih h]

theorem decodeFrom_encodeChar (c : Char) (rest : Bytes) :
    decodeFrom .between (String.utf8EncodeChar c ++ rest) = c :: decodeFrom .between rest := by
  obtain ⟨b, bs, hc, hfirst⟩ := completes_of_encodeChar c
  rw [hc, List.cons_append]
  rcases hfirst with ⟨hwhole, rfl⟩ | ⟨s, hlonger, hs⟩
  · simp [decodeFrom, step, start, hwhole]
  · have hstep : decodeFrom .between (b :: (bs ++ rest)) = decodeFrom s (bs ++ rest) := by
      simp [decodeFrom, step, start, hlonger]
    rw [hstep, decodeFrom_of_completes hs]

theorem decodeFrom_encode_append (t : Text) (rest : Bytes) :
    decodeFrom .between (encode t ++ rest) = t ++ decodeFrom .between rest := by
  induction t with
  | nil => rfl
  | cons c t ih =>
    have hcons : encode (c :: t) = String.utf8EncodeChar c ++ encode t := List.flatMap_cons
    rw [hcons, List.append_assoc, decodeFrom_encodeChar, ih, List.cons_append]

theorem decodeLossy_encode (t : Text) : decodeLossy (encode t) = t := by
  have h := decodeFrom_encode_append t []
  rwa [List.append_nil, decodeFrom, List.append_nil] at h

end Utf8

namespace Utf16

def lowFirst (b c : UInt8) : Nat :=
  b.toNat + 256 * c.toNat

def highFirst (b c : UInt8) : Nat :=
  256 * b.toNat + c.toNat

def unitsOf (unit : UInt8 → UInt8 → Nat) : Bytes → Option (List Nat)
  | [] => some []
  | [_] => none
  | b :: c :: rest => (unitsOf unit rest).map (unit b c :: ·)

/-- The text of units; none if there is a surrogate that has no other one at its side. -/
def textOf : List Nat → Option Text
  | [] => some []
  | [u] => if u < 0xD800 ∨ 0xDFFF < u then some [Char.ofNat u] else none
  | u :: v :: rest =>
    if u < 0xD800 ∨ 0xDFFF < u then (textOf (v :: rest)).map (Char.ofNat u :: ·)
    else if u < 0xDC00 ∧ 0xDC00 ≤ v ∧ v ≤ 0xDFFF then
      (textOf rest).map (Char.ofNat (0x10000 + (u - 0xD800) * 0x400 + (v - 0xDC00)) :: ·)
    else none

def decode? (unit : UInt8 → UInt8 → Nat) (bytes : Bytes) : Option Text :=
  unitsOf unit bytes >>= textOf

def swapPairs : Bytes → Bytes
  | b :: c :: rest => c :: b :: swapPairs rest
  | bytes => bytes

variable {u : Nat} {us : List Nat}

theorem length_charUnits (c : Char) :
    (charUnits c).length = if c.toNat ≤ 0xFFFF then 1 else 2 := by
  by_cases hone : c.toNat < 0x10000
  · have hle : c.toNat ≤ 0xFFFF := by omega
    simp [charUnits, hone, hle]
  · have hle : ¬c.toNat ≤ 0xFFFF := by omega
    simp [charUnits, hone, hle]

theorem lt_of_mem_charUnits {c : Char} (h : u ∈ charUnits c) : u < 0x10000 := by
  have hvalid : c.toNat < 0xD800 ∨ 0xDFFF < c.toNat ∧ c.toNat < 0x110000 := c.valid
  by_cases hone : c.toNat < 0x10000
  · have hu : u = c.toNat := by simpa [charUnits, hone] using h
    omega
  · have hu : u = 0xD800 + (c.toNat - 0x10000) / 0x400 ∨
        u = 0xDC00 + (c.toNat - 0x10000) % 0x400 := by
      simpa [charUnits, hone] using h
    omega

theorem lt_of_mem_units {t : Text} (h : u ∈ units t) : u < 0x10000 := by
  obtain ⟨c, -, hc⟩ := List.mem_flatMap.1 h
  exact lt_of_mem_charUnits hc

theorem lowFirst_bytes (h : u < 0x10000) : lowFirst (lowByte u) (highByte u) = u := by
  simp only [lowFirst, lowByte, highByte, UInt8.toNat_ofNat']
  omega

theorem highFirst_bytes (h : u < 0x10000) : highFirst (highByte u) (lowByte u) = u := by
  simp only [highFirst, lowByte, highByte, UInt8.toNat_ofNat']
  omega

theorem unitsOf_flatMap {unit : UInt8 → UInt8 → Nat} {first second : Nat → UInt8}
    (h : ∀ u ∈ us, unit (first u) (second u) = u) :
    unitsOf unit (us.flatMap fun u ↦ [first u, second u]) = some us := by
  induction us with
  | nil => rfl
  | cons u us ih =>
    rw [List.forall_mem_cons] at h
    simp [unitsOf, ih h.2, h.1]

theorem length_flatMap_pair (first second : Nat → UInt8) (us : List Nat) :
    (us.flatMap fun u ↦ [first u, second u]).length = 2 * us.length := by
  induction us with
  | nil => rfl
  | cons u us ih =>
    simp only [List.flatMap_cons, List.length_append, List.length_cons, List.length_nil, ih]
    omega

theorem swapPairs_flatMap (first second : Nat → UInt8) (us : List Nat) :
    swapPairs (us.flatMap fun u ↦ [first u, second u]) =
      us.flatMap fun u ↦ [second u, first u] := by
  induction us with
  | nil => rfl
  | cons u us ih => simp [swapPairs, ih]

theorem textOf_charUnits_append (c : Char) (us : List Nat) :
    textOf (charUnits c ++ us) = (textOf us).map (c :: ·) := by
  have hvalid : c.toNat < 0xD800 ∨ 0xDFFF < c.toNat ∧ c.toNat < 0x110000 := c.valid
  by_cases hone : c.toNat < 0x10000
  · have hunit : c.toNat < 0xD800 ∨ 0xDFFF < c.toNat := by omega
    simp only [charUnits, hone, if_true]
    cases us with
    | nil => simp [textOf, hunit]
    | cons v us => simp [textOf, hunit]
  · have hunit : ¬(0xD800 + (c.toNat - 0x10000) / 0x400 < 0xD800 ∨
        0xDFFF < 0xD800 + (c.toNat - 0x10000) / 0x400) := by omega
    have hpair : 0xD800 + (c.toNat - 0x10000) / 0x400 < 0xDC00 ∧
        0xDC00 ≤ 0xDC00 + (c.toNat - 0x10000) % 0x400 ∧
        0xDC00 + (c.toNat - 0x10000) % 0x400 ≤ 0xDFFF := by omega
    have hvalue : 0x10000 + (0xD800 + (c.toNat - 0x10000) / 0x400 - 0xD800) * 0x400 +
        (0xDC00 + (c.toNat - 0x10000) % 0x400 - 0xDC00) = c.toNat := by omega
    simp only [charUnits, hone, if_false, List.cons_append, List.nil_append, textOf, hunit, hpair,
      and_self, if_true, hvalue, Char.ofNat_toNat]

theorem textOf_units (t : Text) : textOf (units t) = some t := by
  induction t with
  | nil => rfl
  | cons c t ih =>
    have hcons : units (c :: t) = charUnits c ++ units t := List.flatMap_cons
    rw [hcons, textOf_charUnits_append, ih]
    rfl

theorem unitsOf_encodeLittle (t : Text) : unitsOf lowFirst (encodeLittle t) = some (units t) :=
  unitsOf_flatMap fun _ h ↦ lowFirst_bytes (lt_of_mem_units h)

theorem unitsOf_encodeBig (t : Text) : unitsOf highFirst (encodeBig t) = some (units t) :=
  unitsOf_flatMap fun _ h ↦ highFirst_bytes (lt_of_mem_units h)

theorem decode?_encodeLittle (t : Text) : decode? lowFirst (encodeLittle t) = some t := by
  rw [decode?, unitsOf_encodeLittle]
  exact textOf_units t

theorem decode?_encodeBig (t : Text) : decode? highFirst (encodeBig t) = some t := by
  rw [decode?, unitsOf_encodeBig]
  exact textOf_units t

end Utf16

namespace Encoding

/-- What is known of the bytes of a text in each encoding. -/
structure Lossless (t : Text) : Prop where
  utf8_read : Utf8.decodeLossy (utf8.encode t) = t
  utf8Bom_eq : utf8Bom.encode t = [0xEF, 0xBB, 0xBF] ++ utf8.encode t
  utf16_even : 2 ∣ (utf16Little.encode t).length ∧ 2 ∣ (utf16Big.encode t).length
  utf16Big_eq : utf16Big.encode t = Utf16.swapPairs (utf16Little.encode t)
  utf16Little_eq : utf16Little.encode t = Utf16.swapPairs (utf16Big.encode t)
  utf16Little_units :
    Utf16.unitsOf Utf16.lowFirst (utf16Little.encode t) = some (t.flatMap Utf16.charUnits)
  utf16Big_units :
    Utf16.unitsOf Utf16.highFirst (utf16Big.encode t) = some (t.flatMap Utf16.charUnits)
  utf16Little_read : Utf16.decode? Utf16.lowFirst (utf16Little.encode t) = some t
  utf16Big_read : Utf16.decode? Utf16.highFirst (utf16Big.encode t) = some t

theorem lossless (t : Text) : Lossless t where
  utf8_read := Utf8.decodeLossy_encode t
  utf8Bom_eq := rfl
  utf16_even := ⟨⟨_, Utf16.length_flatMap_pair ..⟩, ⟨_, Utf16.length_flatMap_pair ..⟩⟩
  utf16Big_eq := (Utf16.swapPairs_flatMap ..).symm
  utf16Little_eq := (Utf16.swapPairs_flatMap ..).symm
  utf16Little_units := Utf16.unitsOf_encodeLittle t
  utf16Big_units := Utf16.unitsOf_encodeBig t
  utf16Little_read := Utf16.decode?_encodeLittle t
  utf16Big_read := Utf16.decode?_encodeBig t

theorem encode_injective (e : Encoding) : Function.Injective e.encode := by
  intro t u h
  cases e with
  | utf8 =>
    calc t = Utf8.decodeLossy (utf8.encode t) := (lossless t).utf8_read.symm
      _ = Utf8.decodeLossy (utf8.encode u) := congrArg Utf8.decodeLossy h
      _ = u := (lossless u).utf8_read
  | utf8Bom =>
    have hbytes : Utf8.encode t = Utf8.encode u := List.append_cancel_left h
    rw [← Utf8.decodeLossy_encode t, hbytes, Utf8.decodeLossy_encode]
  | utf16Little =>
    have hread := (lossless t).utf16Little_read
    rw [h, (lossless u).utf16Little_read] at hread
    exact (Option.some.inj hread).symm
  | utf16Big =>
    have hread := (lossless t).utf16Big_read
    rw [h, (lossless u).utf16Big_read] at hread
    exact (Option.some.inj hread).symm

/-- No encoding loses anything: the bytes of every text are read back as the text, in UTF-16 with one
unit for a character up to `U+FFFF` and two for any other, and no two texts have the same bytes. -/
theorem encode_lossless :
    (∀ t, Lossless t) ∧
      (∀ c, (Utf16.charUnits c).length = if c.toNat ≤ 0xFFFF then 1 else 2) ∧
      ∀ e : Encoding, Function.Injective e.encode :=
  ⟨lossless, Utf16.length_charUnits, encode_injective⟩

end Encoding

end TildeMerge
