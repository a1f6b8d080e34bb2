import TildeMerge.Data.Insertion
import Mathlib.Data.List.Basic

namespace TildeMerge.Value

variable {v : Value} {xs ys : List Value}

/-- A value that is no list with items in it. -/
def IsLeaf (v : Value) : Prop :=
  ∀ first rest, v ≠ .list (first :: rest)

mutual

/-- The leaves of a value, left to right and however deep they lie. -/
def leaves : Value → List Value
  | list (first :: rest) => leaves first ++ leavesOfItems rest
  | v => [v]

def leavesOfItems : List Value → List Value
  | [] => []
  | v :: rest => leaves v ++ leavesOfItems rest

end

theorem leaves_list (h : xs ≠ []) : (list xs).leaves = leavesOfItems xs := by
  obtain ⟨first, rest, rfl⟩ := List.exists_cons_of_ne_nil h
  rfl

theorem leavesOfItems_append (xs ys : List Value) :
    leavesOfItems (xs ++ ys) = leavesOfItems xs ++ leavesOfItems ys := by
  induction xs with
  | nil => rfl
  | cons v xs ih => rw [List.cons_append, leavesOfItems, ih, leavesOfItems, List.append_assoc]

mutual

theorem isLeaf_of_mem_leaves : (v : Value) → ∀ w ∈ v.leaves, w.IsLeaf
  | list (first :: rest), w, h => by
    rcases List.mem_append.1 h with h | h
    · exact isLeaf_of_mem_leaves first w h
    · exact isLeaf_of_mem_leavesOfItems rest w h
  | list [], w, h | null, w, h | bool _, w, h | int _, w, h | real _, w, h | text _, w, h
  | record _, w, h => by
    obtain rfl := List.mem_singleton.1 h
    nofun

theorem isLeaf_of_mem_leavesOfItems : (items : List Value) → ∀ w ∈ leavesOfItems items, w.IsLeaf
  | v :: rest, w, h => by
    rcases List.mem_append.1 h with h | h
    · exact isLeaf_of_mem_leaves v w h
    · exact isLeaf_of_mem_leavesOfItems rest w h

end

theorem leaves_ne_nil : (v : Value) → v.leaves ≠ []
  | list (first :: _) => List.append_ne_nil_of_left_ne_nil (leaves_ne_nil first) _
  | list [] | null | bool _ | int _ | real _ | text _ | record _ => List.cons_ne_nil _ _

theorem leavesOfItems_ne_nil (h : xs ≠ []) : leavesOfItems xs ≠ [] := by
  rw [← leaves_list h]
  exact leaves_ne_nil _

theorem insertedItems_cons (v : Value) (h : xs ≠ []) :
    insertedItems (v :: xs) = v.inserted ++ ',' :: insertedItems xs := by
  obtain ⟨w, rest, rfl⟩ := List.exists_cons_of_ne_nil h
  rfl

theorem insertedItems_append (hx : xs ≠ []) (hy : ys ≠ []) :
    insertedItems (xs ++ ys) = insertedItems xs ++ ',' :: insertedItems ys := by
  induction xs with
  | nil => exact absurd rfl hx
  | cons v xs ih =>
    by_cases hrest : xs = []
    · subst hrest
      exact insertedItems_cons v hy
    · have happend := List.append_ne_nil_of_left_ne_nil hrest ys
      rw [List.cons_append, insertedItems_cons v happend, ih hrest, insertedItems_cons v hrest,
        List.append_assoc, List.cons_append]

theorem insertedItems_eq_intercalate (items : List Value) :
    insertedItems items = [','].intercalate (items.map inserted) := by
  induction items with
  | nil => rfl
  | cons v rest ih =>
    cases rest with
    | nil => exact List.intercalate_singleton.symm
    | cons w rest =>
      rw [insertedItems_cons v (List.cons_ne_nil w rest), ih]
      simp [List.intercalate_cons_cons]

mutual

theorem inserted_eq_leaves : (v : Value) → v.inserted = insertedItems v.leaves
  | list (first :: rest) => insertedItems_eq_leavesOfItems (first :: rest)
  | list [] | null | bool _ | int _ | real _ | text _ | record _ => rfl

theorem insertedItems_eq_leavesOfItems : (items : List Value) →
    insertedItems items = insertedItems (leavesOfItems items)
  | [] => rfl
  | v :: rest => by
    have hv := inserted_eq_leaves v
    have hitems := insertedItems_eq_leavesOfItems rest
    by_cases hrest : rest = []
    · subst hrest
      rw [leavesOfItems, leavesOfItems, List.append_nil]
      exact hv
    · rw [insertedItems_cons v hrest, hv, hitems, leavesOfItems,
        insertedItems_append (leaves_ne_nil v) (leavesOfItems_ne_nil hrest)]

end

/-- A list is inserted as its leaves are, with a comma between any two of them. So it makes no difference
which leaves stand together in a list of their own, as long as it is not empty, and two lists one after
the other are inserted with a comma between them. -/
theorem inserted_flattens (items : List Value) :
    (list items).inserted = [','].intercalate ((list items).leaves.map inserted) ∧
    ((∀ v ∈ (list items).leaves, v.IsLeaf) ∧ null.inserted = [] ∧ (list []).inserted = [] ∧
      ∀ fields, (record fields).inserted = Json.write (record fields)) ∧
    (∀ others, (list others).leaves = (list items).leaves →
      (list others).inserted = (list items).inserted) ∧
    (∀ before group after, items = before ++ list group :: after → group ≠ [] →
      (list (before ++ group ++ after)).leaves = (list items).leaves) ∧
    (∀ more, items ≠ [] → more ≠ [] →
      (list (items ++ more)).inserted = (list items).inserted ++ ',' :: (list more).inserted) := by
  refine ⟨?_, ⟨isLeaf_of_mem_leaves _, rfl, rfl, fun _ ↦ rfl⟩, ?_, ?_,
    fun more ↦ insertedItems_append⟩
  · rw [inserted_eq_leaves, insertedItems_eq_intercalate]
  · intro others h
    rw [inserted_eq_leaves, h, ← inserted_eq_leaves]
  · rintro before group after rfl hgroup
    rw [leaves_list (by simp [hgroup]), leaves_list (by simp), leavesOfItems_append,
      leavesOfItems_append, leavesOfItems_append, leavesOfItems, leaves_list hgroup,
      List.append_assoc]

def nestedList : List Value :=
  [.text ['a'], .list [.null, .list [.list [], .record [(['k'], .int 1)]]]]

theorem inserted_flattens_nestedList :
    (list nestedList).leaves = [.text ['a'], .null, .list [], .record [(['k'], .int 1)]] ∧
      (list nestedList).inserted =
        ['a', ',', ',', ',', '\x7b', '"', 'k', '"', ':', '1', '\x7d'] ∧
      (list [.text ['a'], .null, .list [.list [], .record [(['k'], .int 1)]]]).inserted =
        (list nestedList).inserted ∧
      (list (nestedList ++ [.bool true])).inserted =
        (list nestedList).inserted ++ ',' :: (list [.bool true]).inserted := by
  obtain ⟨-, -, hsame, hgroup, happend⟩ := inserted_flattens nestedList
  refine ⟨rfl, rfl, hsame _ (hgroup [_] _ [] rfl nofun), happend _ nofun nofun⟩

end TildeMerge.Value
