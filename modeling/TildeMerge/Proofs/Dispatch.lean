import TildeMerge.Render.Directive

namespace TildeMerge

open Markup

variable {ds : Directives} {keyword : Text}

theorem lookup_cons_eq_ite (key k : Text) (d : Directive) (table : List (Text × Directive)) :
    List.lookup key ((k, d) :: table) = if key = k then some d else table.lookup key := by
  by_cases h : key = k
  · rw [if_pos h, h, List.lookup_cons_self]
  · rw [if_neg h, List.lookup_cons, beq_false_of_ne h]

theorem lookup_put (keyword key : Text) (directive : Directive) (table : List (Text × Directive)) :
    (Directives.put keyword directive table).lookup key =
      if key = keyword then some directive else table.lookup key := by
  induction table with
  | nil => exact lookup_cons_eq_ite ..
  | cons entry rest ih =>
    obtain ⟨k, d⟩ := entry
    rw [Directives.put, lookup_cons_eq_ite]
    by_cases hk : k = keyword
    · rw [if_pos hk, lookup_cons_eq_ite, hk]
      split <;> rfl
    · rw [if_neg hk, lookup_cons_eq_ite, ih]
      -- The key of the entry that stays is not the new one, so the tests may change places.
      by_cases hkey : key = k
      · rw [if_pos hkey, if_neg (hkey ▸ hk), if_pos hkey]
      · rw [if_neg hkey, if_neg hkey]

theorem lookup_of_contains_eq_false (h : ds.contains keyword = false) :
    ds.table.lookup keyword = none := by
  rw [List.lookup_eq_none_iff]
  intro entry hentry
  rw [bne_iff_ne]
  rintro rfl
  have hmem : ds.contains entry.1 = true :=
    List.contains_iff_mem.2 (List.mem_map_of_mem hentry)
  rw [h] at hmem
  cases hmem

variable {head : Head} (body : Text) (record : Value) (options : Options)

theorem dispatch_standard (head : Head) :
    Directives.standard.dispatch head body record options =
      if head.directive = Directives.forKeyword then Directive.forEach head body record options
      else Logged.fail (.unknownDirective head.directive) := by
  rw [Directives.dispatch, Directives.standard, Directives.register, lookup_put]
  by_cases h : head.directive = Directives.forKeyword
  · rw [if_pos h, if_pos h]
  · rw [if_neg h, if_neg h]
    rfl

theorem dispatch_register_of_ne (directive : Directive) (h : head.directive ≠ keyword) :
    (ds.register keyword directive).dispatch head body record options =
      ds.dispatch head body record options := by
  rw [Directives.dispatch, Directives.register, lookup_put, if_neg h]
  rfl

end TildeMerge
