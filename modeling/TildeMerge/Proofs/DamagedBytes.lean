import TildeMerge.Files.Access
import TildeMerge.Proofs.Markup.Positions
import TildeMerge.Proofs.Splicing
import TildeMerge.Proofs.Text.Subparts

namespace TildeMerge

open Markup

namespace Utf8

variable {s : State} {b : UInt8} {bytes rest : Bytes} {t : Text}

/-- The states that the decoder comes to. -/
def State.Sound (s : State) : Prop :=
  s = .between ∨ s.Open

theorem start_sound (b : UInt8) : (start b).2.Sound := by
  unfold start
  cases h : first b with
  | whole c => exact .inl rfl
  | longer s => exact .inr (first_open h)
  | bad => exact .inl rfl

theorem step_sound (s : State) (b : UInt8) : (step s b).2.Sound := by
  cases s with
  | between => exact start_sound b
  | inside value owed low high =>
    rw [step]
    dsimp only
    split
    · split
      · exact .inl rfl
      · exact .inr ⟨by omega, by decide, by decide, by decide⟩
    · exact start_sound b

theorem decodeFrom_cons (s : State) (b : UInt8) (rest : Bytes) :
    decodeFrom s (b :: rest) = (step s b).1 ++ decodeFrom (step s b).2 rest := by
  cases s <;> rfl

theorem decodeFrom_of_not_continuation (hs : s.Sound) (hb : ¬ IsContinuation b) (rest : Bytes) :
    decodeFrom s (b :: rest) = decodeFrom s [] ++ decodeFrom .between (b :: rest) := by
  rcases hs with rfl | hs
  · rfl
  cases s with
  | between => cases hs
  | inside value owed low high =>
    obtain ⟨-, hlow, -, hhigh⟩ := hs
    have hout : ¬ (low ≤ b.toNat ∧ b.toNat ≤ high) := by
      intro hin
      exact hb ⟨Nat.le_trans hlow hin.1, Nat.le_trans hin.2 hhigh⟩
    simp [decodeFrom, step, hout]

theorem decodeFrom_encode (hs : s.Sound) (t : Text) :
    decodeFrom s (encode t) = decodeFrom s [] ++ t := by
  cases t with
  | nil =>
    rw [List.append_nil]
    rfl
  | cons c t =>
    obtain ⟨b, rest, hc, hb, -⟩ := exists_encodeChar_cons c
    have hcons : encode (c :: t) = b :: (rest ++ encode t) := by
      rw [encode, List.flatMap_cons, hc]
      rfl
    have htext : decodeFrom .between (encode (c :: t)) = c :: t := decodeLossy_encode (c :: t)
    rw [hcons] at htext ⊢
    rw [decodeFrom_of_not_continuation hs hb, htext]

theorem decodeFrom_append_encode (hs : s.Sound) (bytes : Bytes) (t : Text) :
    decodeFrom s (bytes ++ encode t) = decodeFrom s bytes ++ t := by
  induction bytes generalizing s with
  | nil => exact decodeFrom_encode hs t
  | cons b bytes ih =>
    rw [List.cons_append, decodeFrom_cons, decodeFrom_cons, ih (step_sound s b), List.append_assoc]

theorem decodeLossy_between (t : Text) (bytes : Bytes) (u : Text) :
    decodeLossy (encode t ++ bytes ++ encode u) = t ++ decodeLossy bytes ++ u := by
  rw [decodeLossy, List.append_assoc, decodeFrom_encode_append, decodeFrom_append_encode (.inl rfl),
    List.append_assoc]
  rfl

end Utf8

def Markup.Placeholder.shift (p : Placeholder) (bytes : Nat) : Placeholder :=
  ⟨p.start + bytes, p.stop + bytes, p.path⟩

variable {bytes : Bytes} {t m u : Text} {ps qs : List Piece}

theorem locate_shift (offset bytes : Nat) (ps : List Piece) :
    locate (offset + bytes) ps = (locate offset ps).map (·.shift bytes) := by
  induction ps generalizing offset with
  | nil => rfl
  | cons piece ps ih =>
    cases piece with
    | plain c => rw [locate, locate, ← ih, Nat.add_right_comm]
    | placeholder path =>
      have hstop : offset + bytes + 1 + path.size = offset + 1 + path.size + bytes := by omega
      rw [locate, locate, List.map_cons, ← ih, hstop]
      rfl

/-- The text begins and ends with a replacement character, to which no path reaches. -/
def Damaged (m : Text) : Prop :=
  m.head? = some Utf8.replacement ∧ m.getLast? = some Utf8.replacement

theorem Damaged.endsRun (h : Damaged m) (u : Text) : EndsRun (m ++ u) := by
  obtain ⟨r, rfl⟩ := List.head?_eq_some_iff.1 h.1
  exact endsRun_cons.2 (by decide)

/-- A scan whose pieces end where no path goes on takes the texts on both sides of damage for themselves. -/
theorem Damaged.pieces_append {scan : Text → List Piece} (h : Damaged m) (hnil : scan [] = [])
    (happend : ∀ s t, EndsRun t → scan (s ++ t) = scan s ++ scan t)
    (hcons : ∀ t, scan (Utf8.replacement :: t) = .plain Utf8.replacement :: scan t) (t u : Text) :
    scan (t ++ m ++ u) = scan t ++ scan m ++ scan u := by
  have hends (u : Text) : EndsRun (Utf8.replacement :: u) := endsRun_cons.2 (by decide)
  obtain ⟨r, hr⟩ := List.getLast?_eq_some_iff.1 h.2
  have hlast : scan m = scan r ++ [.plain Utf8.replacement] := by
    rw [hr, happend r _ (hends []), hcons, hnil]
  rw [List.append_assoc, happend t _ (h.endsRun u), hlast, hr, List.append_assoc, List.singleton_append,
    happend r _ (hends u), hcons, List.append_assoc, List.append_assoc]
  rfl

theorem locate_between {marker : Char} (hm : marker.utf8Size = 1) {ps qs rs : List Piece}
    (hp : ps.flatMap (Piece.text marker) = t) (hq : qs.flatMap (Piece.text marker) = m) :
    locate 0 (ps ++ qs ++ rs) = locate 0 ps ++ (locate 0 qs).map (·.shift t.size) ++
      (locate 0 rs).map (·.shift (t ++ m).size) := by
  rw [← locate_shift, ← locate_shift, List.append_assoc, locate_append hm, locate_append hm, hp, hq,
    Text.size_append, List.append_assoc, Nat.add_assoc]

theorem Damaged.scalars_append (h : Damaged m) (t u : Text) : scalars (t ++ m ++ u) =
    scalars t ++ (scalars m).map (·.shift t.size) ++ (scalars u).map (·.shift (t ++ m).size) := by
  rw [scalars, h.pieces_append rfl (fun s _ ↦ scalarPieces_append s)
    (fun _ ↦ scalarPieces_cons (by decide)) t u]
  exact locate_between rfl (scalarPieces_text t) (scalarPieces_text m)

theorem Damaged.itemRefs_append (h : Damaged m) (t u : Text) : itemRefs (t ++ m ++ u) =
    itemRefs t ++ (itemRefs m).map (·.shift t.size) ++ (itemRefs u).map (·.shift (t ++ m).size) := by
  rw [itemRefs, h.pieces_append rfl (fun s _ ↦ itemPieces_append s)
    (itemPieces_cons (by decide)) t u]
  exact locate_between rfl (itemPieces_text t) (itemPieces_text m)

/-- Damage stays where it is. The bytes of two texts are read as the texts, whatever bytes stand between them,
and of those each maximal part that is no character gives one replacement character; and if what they give
begins and ends with one, then the placeholders of the texts are those that they have alone. -/
theorem damage_isolated (t u : Text) (bytes : Bytes) :
    (∀ x, Utf8.Reads bytes x ↔ x = Utf8.decodeLossy bytes) ∧
      Utf8.decodeLossy (Utf8.encode t ++ bytes ++ Utf8.encode u) = t ++ Utf8.decodeLossy bytes ++ u ∧
      (∀ (read : FileReader) (p : Text), read p = .ok (Utf8.encode t ++ bytes ++ Utf8.encode u) →
        (loadTemplate read p).result = .ok (t ++ Utf8.decodeLossy bytes ++ u)) ∧
      (Damaged (Utf8.decodeLossy bytes) →
        scalars (t ++ Utf8.decodeLossy bytes ++ u) =
            scalars t ++ (scalars (Utf8.decodeLossy bytes)).map (·.shift t.size) ++
              (scalars u).map (·.shift (t ++ Utf8.decodeLossy bytes).size) ∧
          itemRefs (t ++ Utf8.decodeLossy bytes ++ u) =
            itemRefs t ++ (itemRefs (Utf8.decodeLossy bytes)).map (·.shift t.size) ++
              (itemRefs u).map (·.shift (t ++ Utf8.decodeLossy bytes).size)) := by
  refine ⟨fun x ↦ Utf8.reads_iff, Utf8.decodeLossy_between t bytes u, ?_, ?_⟩
  · intro read p hread
    rw [loadTemplate, Logged.bind_result, Logged.tell_result, hread]
    exact congrArg Except.ok (Utf8.decodeLossy_between t bytes u)
  · intro h
    exact ⟨h.scalars_append t u, h.itemRefs_append t u⟩

/-- A character of three bytes that is cut off, and before it a byte that is in none. -/
def cutBytes : Bytes :=
  [0xFF, 0xE2, 0x82]

theorem damage_isolated_cutBytes :
    Damaged (Utf8.decodeLossy cutBytes) ∧
      scalars (['~', 'a'] ++ Utf8.decodeLossy cutBytes ++ ['b', '~', 'c']) =
        [⟨0, 2, ['a']⟩, ⟨9, 11, ['c']⟩] ∧
      (loadTemplate (fun _ ↦ .ok (Utf8.encode ['~', 'a'] ++ cutBytes ++ Utf8.encode ['b', '~', 'c']))
        []).result = .ok ['~', 'a', Utf8.replacement, Utf8.replacement, 'b', '~', 'c'] := by
  have hdamaged : Damaged (Utf8.decodeLossy cutBytes) := ⟨by decide, by decide⟩
  obtain ⟨-, -, hload, hscans⟩ := damage_isolated ['~', 'a'] ['b', '~', 'c'] cutBytes
  refine ⟨hdamaged, ?_, ?_⟩
  · rw [(hscans hdamaged).1]
    decide
  · rw [hload _ _ rfl]
    decide

end TildeMerge
