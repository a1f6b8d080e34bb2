import TildeMerge.Json.Reader
import TildeMerge.Proofs.Json.Integers
import TildeMerge.Proofs.Json.Tokens
import Mathlib.Data.List.Basic

namespace TildeMerge

namespace Value

/-- A value that a text can hold exactly: one without real numbers, with integers of 64 bits, and with
the keys of its records in order. -/
inductive Exact : Value → Prop
  | null : Exact null
  | bool (b : Bool) : Exact (bool b)
  | int {n : Int} (h : inIntRange n) : Exact (int n)
  | text (t : Text) : Exact (text t)
  | list {items : List Value} (h : ∀ v ∈ items, Exact v) : Exact (list items)
  | record {fields : Fields} (hkeys : (fields.map Prod.fst).Pairwise (· < ·))
      (h : ∀ f ∈ fields, Exact f.2) : Exact (record fields)

mutual

def depth : Value → Nat
  | list items => depthOfItems items + 1
  | record fields => depthOfFields fields + 1
  | null | bool _ | int _ | real _ | text _ => 0

def depthOfItems : List Value → Nat
  | [] => 0
  | v :: rest => max (depth v) (depthOfItems rest)

def depthOfFields : List (Text × Value) → Nat
  | [] => 0
  | (_, v) :: rest => max (depth v) (depthOfFields rest)

end

end Value

theorem Fields.insert_of_lt {fields : Fields} {key : Text} (value : Value)
    (h : ∀ k ∈ fields.map Prod.fst, k < key) :
    fields.insert key value = fields ++ [(key, value)] := by
  induction fields with
  | nil => rfl
  | cons f fields ih =>
    obtain ⟨k, v⟩ := f
    rw [List.map_cons, List.forall_mem_cons] at h
    have hlt : ¬key < k := List.lt_asymm h.1
    have hne : key ≠ k := fun heq ↦ List.lt_irrefl k (heq ▸ h.1)
    rw [insert, if_neg hlt, if_neg hne, ih h.2, List.cons_append]

theorem Fields.insert_of_pairwise {seen more : Fields} {key : Text} {value : Value}
    (h : ((seen ++ (key, value) :: more).map Prod.fst).Pairwise (· < ·)) :
    seen.insert key value = seen ++ [(key, value)] := by
  apply insert_of_lt
  intro k hk
  rw [List.map_append, List.pairwise_append] at h
  exact h.2.2 k hk key (by simp)

namespace Value

theorem depth_le_of_mem_items {v : Value} {items : List Value} (h : v ∈ items) :
    v.depth ≤ depthOfItems items := by
  induction items with
  | nil => cases h
  | cons w items ih =>
    rw [depthOfItems]
    rcases List.mem_cons.1 h with rfl | h
    · exact Nat.le_max_left ..
    · exact Nat.le_trans (ih h) (Nat.le_max_right ..)

theorem depth_le_of_mem_fields {f : Text × Value} {fields : Fields} (h : f ∈ fields) :
    f.2.depth ≤ depthOfFields fields := by
  induction fields with
  | nil => cases h
  | cons g fields ih =>
    rw [depthOfFields]
    rcases List.mem_cons.1 h with rfl | h
    · exact Nat.le_max_left ..
    · exact Nat.le_trans (ih h) (Nat.le_max_right ..)

end Value

namespace Json

open Number

variable {c : Char} {rest : Text} {v : Value} {items vs : List Value} {fields fs : Fields}

mutual

def tokensOf : Value → List Token
  | .text t => [.text t]
  | .list items => .openList :: tokensOfItems items
  | .record fields => .openRecord :: tokensOfFields fields
  | v => [.atom v]

def tokensOfItems : List Value → List Token
  | [] => [.closeList]
  | v :: rest => tokensOf v ++ tokensOfMoreItems rest

def tokensOfMoreItems : List Value → List Token
  | [] => [.closeList]
  | v :: rest => .comma :: tokensOf v ++ tokensOfMoreItems rest

def tokensOfFields : List (Text × Value) → List Token
  | [] => [.closeRecord]
  | (k, v) :: rest => .text k :: .colon :: tokensOf v ++ tokensOfMoreFields rest

def tokensOfMoreFields : List (Text × Value) → List Token
  | [] => [.closeRecord]
  | (k, v) :: rest => .comma :: .text k :: .colon :: tokensOf v ++ tokensOfMoreFields rest

end

/-- Before anything that cannot continue its last token, the text is read as the tokens. -/
def Spells (t : Text) (tokens : List Token) : Prop :=
  ∀ rest, EndsToken rest →
    tokensFrom .between (t ++ rest) = (tokensFrom .between rest).map (tokens ++ ·)

theorem spells_word {w : Text} (hc : step .between c = some ([], .word [c]))
    (hw : w.all Char.isLower = true) (hv : readWord (c :: w) = some v) :
    Spells (c :: w) [.atom v] := by
  intro rest hrest
  exact tokensFrom_word hrest hc (List.all_eq_true.1 hw) hv

theorem spells_bool (b : Bool) : Spells (boolText b) [.atom (.bool b)] := by
  cases b with
  | false => exact spells_word rfl rfl rfl
  | true => exact spells_word rfl rfl rfl

theorem isNumberChar_of_isDigit (h : c.isDigit = true) : isNumberChar c = true := by
  simp [isNumberChar, h]

theorem step_of_isDigit (h : c.isDigit = true) : step .between c = some ([], .number [c]) := by
  have hne {d : Char} (hd : d.isDigit = false) : c ≠ d := by
    rintro rfl
    rw [h] at hd
    cases hd
  simp [step, start, isSpace, h, hne (d := ' ') rfl, hne (d := '\t') rfl, hne (d := '\n') rfl,
    hne (d := '\r') rfl, hne (d := '[') rfl, hne (d := ']') rfl, hne (d := '{') rfl,
    hne (d := '}') rfl, hne (d := ',') rfl, hne (d := ':') rfl, hne (d := '"') rfl]

theorem exists_intText (n : Int) : ∃ c w, intText n = c :: w ∧
    step .between c = some ([], .number [c]) ∧ ∀ d ∈ w, isNumberChar d = true := by
  cases n with
  | ofNat n =>
    have hne : toDigits n ≠ [] := Nat.toDigits_ne_nil
    obtain ⟨c, w, hdigits⟩ := List.exists_cons_of_ne_nil hne
    have hall : ∀ d ∈ c :: w, d.isDigit = true := by
      intro d hd
      rw [← hdigits] at hd
      exact isDigit_of_mem_toDigits hd
    rw [List.forall_mem_cons] at hall
    exact ⟨c, w, hdigits, step_of_isDigit hall.1, fun d hd ↦ isNumberChar_of_isDigit (hall.2 d hd)⟩
  | negSucc n =>
    exact ⟨'-', _, rfl, rfl, fun d hd ↦ isNumberChar_of_isDigit (isDigit_of_mem_toDigits hd)⟩

theorem spells_int {n : Int} (h : Value.inIntRange n) : Spells (intText n) [.atom (.int n)] := by
  obtain ⟨c, w, htext, hc, hw⟩ := exists_intText n
  have hread : readNumber (c :: w) = some (.int n) := htext ▸ readNumber_intText h
  rw [htext]
  intro rest hrest
  exact tokensFrom_number hrest hc hw hread

theorem endsToken_writeMoreItems (vs : List Value) (rest : Text) :
    EndsToken (writeMoreItems vs ++ rest) := by
  cases vs with
  | nil => exact endsToken_cons (by decide)
  | cons v vs => exact endsToken_cons (by decide)

theorem endsToken_writeMoreFields (fs : Fields) (rest : Text) :
    EndsToken (writeMoreFields fs ++ rest) := by
  cases fs with
  | nil => exact endsToken_cons (by decide)
  | cons f fs => exact endsToken_cons (by decide)

theorem tokensFrom_writeMoreItems (h : ∀ v ∈ vs, Spells (write v) (tokensOf v)) (rest : Text) :
    tokensFrom .between (writeMoreItems vs ++ rest) =
      (tokensFrom .between rest).map (tokensOfMoreItems vs ++ ·) := by
  induction vs with
  | nil => exact tokensFrom_token rfl rest
  | cons v vs ih =>
    rw [List.forall_mem_cons] at h
    have hcons : writeMoreItems (v :: vs) ++ rest =
        ',' :: (write v ++ (writeMoreItems vs ++ rest)) := by
      simp [writeMoreItems]
    rw [hcons, tokensFrom_token (k := .comma) rfl,
      h.1 _ (endsToken_writeMoreItems vs rest), ih h.2]
    simp [tokensOfMoreItems, Option.map_map, Function.comp_def]

theorem tokensFrom_writeItems (h : ∀ v ∈ vs, Spells (write v) (tokensOf v)) (rest : Text) :
    tokensFrom .between (writeItems vs ++ rest) =
      (tokensFrom .between rest).map (tokensOfItems vs ++ ·) := by
  cases vs with
  | nil => exact tokensFrom_token rfl rest
  | cons v vs =>
    rw [List.forall_mem_cons] at h
    rw [writeItems, List.append_assoc, h.1 _ (endsToken_writeMoreItems vs rest),
      tokensFrom_writeMoreItems h.2]
    simp [tokensOfItems, Option.map_map, Function.comp_def]

theorem tokensFrom_field {k : Text} (h : Spells (write v) (tokensOf v)) (hrest : EndsToken rest) :
    tokensFrom .between (quote k ++ ':' :: (write v ++ rest)) =
      (tokensFrom .between rest).map (.text k :: .colon :: tokensOf v ++ ·) := by
  rw [tokensFrom_quote, tokensFrom_token (k := .colon) rfl, h _ hrest]
  simp [Option.map_map, Function.comp_def]

theorem tokensFrom_writeMoreFields (h : ∀ f ∈ fs, Spells (write f.2) (tokensOf f.2)) (rest : Text) :
    tokensFrom .between (writeMoreFields fs ++ rest) =
      (tokensFrom .between rest).map (tokensOfMoreFields fs ++ ·) := by
  induction fs with
  | nil => exact tokensFrom_token rfl rest
  | cons f fs ih =>
    obtain ⟨k, v⟩ := f
    rw [List.forall_mem_cons] at h
    have hcons : writeMoreFields ((k, v) :: fs) ++ rest =
        ',' :: (quote k ++ ':' :: (write v ++ (writeMoreFields fs ++ rest))) := by
      simp [writeMoreFields]
    rw [hcons, tokensFrom_token (k := .comma) rfl,
      tokensFrom_field h.1 (endsToken_writeMoreFields fs rest), ih h.2]
    simp [tokensOfMoreFields, Option.map_map, Function.comp_def]

theorem tokensFrom_writeFields (h : ∀ f ∈ fs, Spells (write f.2) (tokensOf f.2)) (rest : Text) :
    tokensFrom .between (writeFields fs ++ rest) =
      (tokensFrom .between rest).map (tokensOfFields fs ++ ·) := by
  cases fs with
  | nil => exact tokensFrom_token rfl rest
  | cons f fs =>
    obtain ⟨k, v⟩ := f
    rw [List.forall_mem_cons] at h
    have hcons : writeFields ((k, v) :: fs) ++ rest =
        quote k ++ ':' :: (write v ++ (writeMoreFields fs ++ rest)) := by
      simp [writeFields]
    rw [hcons, tokensFrom_field h.1 (endsToken_writeMoreFields fs rest),
      tokensFrom_writeMoreFields h.2]
    simp [tokensOfFields, Option.map_map, Function.comp_def]

theorem spells_write (h : v.Exact) : Spells (write v) (tokensOf v) := by
  induction h with
  | null => exact spells_word rfl rfl rfl
  | bool b => exact spells_bool b
  | int h => exact spells_int h
  | text t =>
    intro rest _
    exact tokensFrom_quote t rest
  | list h ih =>
    intro rest _
    rw [write, tokensOf, List.cons_append, tokensFrom_token (k := .openList) rfl,
      tokensFrom_writeItems ih]
    simp [Option.map_map, Function.comp_def]
  | record hkeys h ih =>
    intro rest _
    rw [write, tokensOf, List.cons_append, tokensFrom_token (k := .openRecord) rfl,
      tokensFrom_writeFields ih]
    simp [Option.map_map, Function.comp_def]

theorem tokens_write (h : v.Exact) : tokens (write v) = some (tokensOf v) := by
  have hspells := spells_write h [] endsToken_nil
  rw [List.append_nil] at hspells
  rw [tokens, hspells]
  simp [tokensFrom, atEnd]

theorem readFrom_cons (st : Stage) (token : Token) (tokens : List Token) :
    readFrom st (token :: tokens) = (take st token).bind (readFrom · tokens) := rfl

theorem exists_tokensOf (v : Value) :
    ∃ token tokens, tokensOf v = token :: tokens ∧ ∀ stack,
      take (.item stack) token = take (.value (.list [] :: stack)) token := by
  cases v with
  | text t => exact ⟨.text t, [], rfl, fun _ ↦ rfl⟩
  | list items => exact ⟨.openList, _, rfl, fun _ ↦ rfl⟩
  | record fields => exact ⟨.openRecord, _, rfl, fun _ ↦ rfl⟩
  | null => exact ⟨.atom .null, [], rfl, fun _ ↦ rfl⟩
  | bool b => exact ⟨.atom (.bool b), [], rfl, fun _ ↦ rfl⟩
  | int n => exact ⟨.atom (.int n), [], rfl, fun _ ↦ rfl⟩
  | real x => exact ⟨.atom (.real x), [], rfl, fun _ ↦ rfl⟩

theorem readFrom_item (v : Value) (stack : List Frame) (tokens : List Token) :
    readFrom (.item stack) (tokensOf v ++ tokens) =
      readFrom (.value (.list [] :: stack)) (tokensOf v ++ tokens) := by
  obtain ⟨token, more, htokens, htake⟩ := exists_tokensOf v
  rw [htokens, List.cons_append, readFrom_cons, readFrom_cons, htake]

/-- With so many lists and records open, the tokens are read as the value. -/
def ReadsAt (stack : List Frame) (v : Value) : Prop :=
  ∀ tokens, readFrom (.value stack) (tokensOf v ++ tokens) = readFrom (.after stack v) tokens

theorem readFrom_moreItems {stack : List Frame}
    (h : ∀ v ∈ vs, ∀ seen, ReadsAt (.list seen :: stack) v) (seen : List Value) (v : Value)
    (tokens : List Token) :
    readFrom (.after (.list seen :: stack) v) (tokensOfMoreItems vs ++ tokens) =
      readFrom (.after stack (.list (seen.reverse ++ v :: vs))) tokens := by
  induction vs generalizing seen v with
  | nil =>
    have hlist : (v :: seen).reverse = seen.reverse ++ [v] := List.reverse_cons
    rw [← hlist]
    rfl
  | cons w vs ih =>
    rw [List.forall_mem_cons] at h
    calc readFrom (.after (.list seen :: stack) v) (tokensOfMoreItems (w :: vs) ++ tokens)
      _ = readFrom (.value (.list (v :: seen) :: stack))
            (tokensOf w ++ (tokensOfMoreItems vs ++ tokens)) := by
        simp only [tokensOfMoreItems, List.cons_append, List.append_assoc]
        rfl
      _ = readFrom (.after (.list (v :: seen) :: stack) w) (tokensOfMoreItems vs ++ tokens) :=
        h.1 (v :: seen) _
      _ = readFrom (.after stack (.list ((v :: seen).reverse ++ w :: vs))) tokens :=
        ih h.2 (v :: seen) w
      _ = readFrom (.after stack (.list (seen.reverse ++ v :: w :: vs))) tokens := by
        rw [List.reverse_cons, List.append_assoc, List.singleton_append]

theorem readFrom_items {stack : List Frame}
    (h : ∀ v ∈ items, ∀ seen, ReadsAt (.list seen :: stack) v) (tokens : List Token) :
    readFrom (.item stack) (tokensOfItems items ++ tokens) =
      readFrom (.after stack (.list items)) tokens := by
  cases items with
  | nil => rfl
  | cons v vs =>
    rw [List.forall_mem_cons] at h
    rw [tokensOfItems, List.append_assoc, readFrom_item, h.1 [], readFrom_moreItems h.2]
    rfl

theorem readFrom_moreFields {stack : List Frame}
    (h : ∀ f ∈ fs, ∀ seen k, ReadsAt (.record seen k :: stack) f.2) (seen : Fields) (k : Text)
    (v : Value) (hkeys : ((seen ++ (k, v) :: fs).map Prod.fst).Pairwise (· < ·))
    (tokens : List Token) :
    readFrom (.after (.record seen k :: stack) v) (tokensOfMoreFields fs ++ tokens) =
      readFrom (.after stack (.record (seen ++ (k, v) :: fs))) tokens := by
  induction fs generalizing seen k v with
  | nil =>
    rw [← Fields.insert_of_pairwise hkeys]
    rfl
  | cons f fs ih =>
    obtain ⟨k', v'⟩ := f
    rw [List.forall_mem_cons] at h
    have hinsert := Fields.insert_of_pairwise hkeys
    have hsplit : seen ++ (k, v) :: (k', v') :: fs = seen.insert k v ++ (k', v') :: fs := by
      rw [hinsert, List.append_assoc, List.singleton_append]
    rw [hsplit] at hkeys ⊢
    calc readFrom (.after (.record seen k :: stack) v) (tokensOfMoreFields ((k', v') :: fs) ++ tokens)
      _ = readFrom (.value (.record (seen.insert k v) k' :: stack))
            (tokensOf v' ++ (tokensOfMoreFields fs ++ tokens)) := by
        simp only [tokensOfMoreFields, List.cons_append, List.append_assoc]
        rfl
      _ = readFrom (.after (.record (seen.insert k v) k' :: stack) v')
            (tokensOfMoreFields fs ++ tokens) := h.1 (seen.insert k v) k' _
      _ = readFrom (.after stack (.record (seen.insert k v ++ (k', v') :: fs))) tokens :=
        ih h.2 (seen.insert k v) k' v' hkeys

theorem readFrom_fields {stack : List Frame}
    (h : ∀ f ∈ fields, ∀ seen k, ReadsAt (.record seen k :: stack) f.2)
    (hkeys : (fields.map Prod.fst).Pairwise (· < ·)) (tokens : List Token) :
    readFrom (.key stack [] true) (tokensOfFields fields ++ tokens) =
      readFrom (.after stack (.record fields)) tokens := by
  cases fields with
  | nil => rfl
  | cons f fs =>
    obtain ⟨k, v⟩ := f
    rw [List.forall_mem_cons] at h
    calc readFrom (.key stack [] true) (tokensOfFields ((k, v) :: fs) ++ tokens)
      _ = readFrom (.value (.record [] k :: stack))
            (tokensOf v ++ (tokensOfMoreFields fs ++ tokens)) := by
        simp only [tokensOfFields, List.cons_append, List.append_assoc]
        rfl
      _ = readFrom (.after (.record [] k :: stack) v) (tokensOfMoreFields fs ++ tokens) :=
        h.1 [] k _
      _ = readFrom (.after stack (.record ((k, v) :: fs))) tokens :=
        readFrom_moreFields h.2 [] k v hkeys tokens

theorem readFrom_openList {stack : List Frame} (h : stack.length < maxDepth) (tokens : List Token) :
    readFrom (.value stack) (.openList :: tokens) = readFrom (.item stack) tokens := by
  rw [readFrom_cons]
  simp [take, startValue, h]

theorem readFrom_openRecord {stack : List Frame} (h : stack.length < maxDepth)
    (tokens : List Token) :
    readFrom (.value stack) (.openRecord :: tokens) = readFrom (.key stack [] true) tokens := by
  rw [readFrom_cons]
  simp [take, startValue, h]

theorem readsAt (h : v.Exact) {stack : List Frame} (hdepth : stack.length + v.depth ≤ maxDepth) :
    ReadsAt stack v := by
  induction h generalizing stack with
  | null => exact fun _ ↦ rfl
  | bool b => exact fun _ ↦ rfl
  | int h => exact fun _ ↦ rfl
  | text t => exact fun _ ↦ rfl
  | @list items h ih =>
    intro tokens
    rw [Value.depth] at hdepth
    rw [tokensOf, List.cons_append, readFrom_openList (by omega)]
    apply readFrom_items
    intro v hv seen
    have hle := Value.depth_le_of_mem_items hv
    apply ih v hv
    rw [List.length_cons]
    omega
  | @record fields hkeys h ih =>
    intro tokens
    rw [Value.depth] at hdepth
    rw [tokensOf, List.cons_append, readFrom_openRecord (by omega)]
    refine readFrom_fields ?_ hkeys tokens
    intro f hf seen k
    have hle := Value.depth_le_of_mem_fields hf
    apply ih f hf
    rw [List.length_cons]
    omega

theorem read_write (h : v.Exact) (hdepth : v.depth ≤ maxDepth) : read (write v) = some v := by
  have hempty : ([] : List Frame).length + v.depth ≤ maxDepth := by simpa using hdepth
  have hread := readsAt h hempty []
  rw [List.append_nil] at hread
  rw [read, tokens_write h]
  exact hread

end Json

end TildeMerge
