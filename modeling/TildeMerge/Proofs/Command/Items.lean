import TildeMerge.Command.Args
import TildeMerge.Proofs.Results
import Mathlib.Data.List.TakeWhile

namespace TildeMerge.Command

inductive Item where
  | path (p : Text)
  | flag (f : Flag)
  | setting (s : Setting) (value : Text)
  deriving DecidableEq, Repr

def Item.apply (g : Given) : Item → Except Refusal Given
  | path p => g.addPath p
  | flag f => g.setFlag f
  | setting s value => g.setValue value s

def Takes (g : Given) (items : List Item) (g' : Given) : Prop :=
  items.foldlM Item.apply g = .ok g'

variable {g g' g'' : Given} {item : Item} {items more : List Item} {r r' : Reading} {arg : Text}
  {argv : List Text} {a : Args}

theorem takes_nil (g : Given) : Takes g [] g := rfl

theorem takes_cons : Takes g (item :: items) g'' ↔ ∃ g', item.apply g = .ok g' ∧ Takes g' items g'' :=
  bind_eq_ok

theorem takes_append : Takes g (items ++ more) g'' ↔ ∃ g', Takes g items g' ∧ Takes g' more g'' := by
  rw [Takes, List.foldlM_append]
  exact bind_eq_ok

theorem takes_singleton : Takes g [item] g' ↔ item.apply g = .ok g' := by
  rw [takes_cons]
  constructor
  · rintro ⟨g₁, hitem, htakes⟩
    obtain rfl := Except.ok.inj htakes
    exact hitem
  · intro h
    exact ⟨g', h, takes_nil g'⟩

theorem Takes.preserves {P : Given → Prop}
    (hstep : ∀ (g : Given) (item : Item) (g' : Given), P g → item.apply g = .ok g' → P g')
    (h : Takes g items g') (hg : P g) :
    P g' := by
  induction items generalizing g with
  | nil =>
    obtain rfl := Except.ok.inj h
    exact hg
  | cons item items ih =>
    obtain ⟨g₁, hitem, htakes⟩ := takes_cons.1 h
    exact ih htakes (hstep g item g₁ hg hitem)

namespace Reading

/-- What was pending is settled first, and then items are taken. -/
structure Settles (r r' : Reading) : Prop where
  exists_items : ∃ g items, r.pending.settle r.given = .ok g ∧ Takes g items r'.given
  onlyPaths_eq : r'.onlyPaths = r.onlyPaths

theorem settle_eq_ok : r.settle = .ok r' ↔
    ∃ g, r.pending.settle r.given = .ok g ∧ { r with given := g, pending := .nothing } = r' := by
  rw [Reading.settle, bind_eq_ok]
  simp [pure, Except.pure]

theorem Settles.trans {r₁ : Reading} (h : r.Settles r₁) (hpending : r₁.pending = .nothing)
    (h' : r₁.Settles r') : r.Settles r' := by
  obtain ⟨⟨g, items, hsettle, hitems⟩, honly⟩ := h
  obtain ⟨⟨g₁, more, hsettle', hmore⟩, honly'⟩ := h'
  rw [hpending] at hsettle'
  obtain rfl := Except.ok.inj hsettle'
  exact ⟨⟨g, items ++ more, hsettle, takes_append.2 ⟨_, hitems, hmore⟩⟩, honly'.trans honly⟩

theorem flag_eq_ok {f : Flag} (h : r.flag f = .ok r') : r.Settles r' ∧ r'.pending = .nothing := by
  obtain ⟨r₁, hsettle, h⟩ := bind_eq_ok.1 h
  obtain ⟨g, hg, rfl⟩ := settle_eq_ok.1 hsettle
  obtain ⟨g', hflag, h⟩ := bind_eq_ok.1 h
  obtain rfl := Except.ok.inj h
  have hitem : (Item.flag f).apply g = .ok g' := hflag
  exact ⟨⟨⟨g, [.flag f], hg, takes_singleton.2 hitem⟩, rfl⟩, rfl⟩

theorem attached_eq_ok {s : Setting} {value : Text} (h : r.attached s value = .ok r') :
    r.Settles r' := by
  obtain ⟨r₁, hsettle, h⟩ := bind_eq_ok.1 h
  obtain ⟨g, hg, rfl⟩ := settle_eq_ok.1 hsettle
  obtain ⟨g', hvalue, h⟩ := bind_eq_ok.1 h
  obtain rfl := Except.ok.inj h
  have hitem : (Item.setting s value).apply g = .ok g' := hvalue
  exact ⟨⟨g, [.setting s value], hg, takes_singleton.2 hitem⟩, rfl⟩

theorem await_eq_ok {s : Setting} (h : r.await s = .ok r') :
    r.Settles r' ∧ r'.pending = .awaiting s := by
  obtain ⟨r₁, hsettle, h⟩ := bind_eq_ok.1 h
  obtain ⟨g, hg, rfl⟩ := settle_eq_ok.1 hsettle
  obtain rfl := Except.ok.inj h
  exact ⟨⟨⟨g, [], hg, takes_nil g⟩, rfl⟩, rfl⟩

theorem path_eq_ok {p : Text} (h : r.path p = .ok r') : r.Settles r' := by
  rw [Reading.path] at h
  split at h
  · obtain ⟨r₁, hsettle, h⟩ := bind_eq_ok.1 h
    obtain ⟨g, hg, rfl⟩ := settle_eq_ok.1 hsettle
    obtain rfl := Except.ok.inj h
    exact ⟨⟨g, [], hg, takes_nil g⟩, rfl⟩
  · cases h

theorem long_eq_ok (h : r.long arg = .ok r') : r.Settles r' := by
  simp only [Reading.long] at h
  split at h
  · cases h
  · exact (flag_eq_ok h).1
  · cases h
  · exact (await_eq_ok h).1
  · exact attached_eq_ok h

theorem short_eq_ok {letters : Text} (h : r.short letters = .ok r') :
    letters = [] ∧ r = r' ∨ r.Settles r' := by
  induction letters generalizing r with
  | nil => exact .inl ⟨rfl, Except.ok.inj h⟩
  | cons c rest ih =>
    right
    unfold Reading.short at h
    split at h
    · cases h
    · obtain ⟨r₁, hflag, h⟩ := bind_eq_ok.1 h
      obtain ⟨hsettles, hpending⟩ := flag_eq_ok hflag
      rcases ih h with ⟨-, rfl⟩ | hrest
      · exact hsettles
      · exact hsettles.trans hpending hrest
    · split at h
      · exact (await_eq_ok h).1
      · exact attached_eq_ok h
      · exact attached_eq_ok h

/-- All that an argument can do: make the ones behind it paths, be the value of the setting before it, or
settle what is pending and be taken. -/
theorem step_cases (h : r.step arg = .ok r') :
    arg = ['-', '-'] ∧ r' = { r with onlyPaths := true } ∨
      (∃ s, r.pending = .awaiting s ∧ r' = { r with pending := .value s arg }) ∨ r.Settles r' := by
  unfold Reading.step at h
  split at h
  · exact .inr (.inr (path_eq_ok h))
  · split at h
    · exact .inl ⟨rfl, (Except.ok.inj h).symm⟩
    · exact .inr (.inr (long_eq_ok h))
    · rcases short_eq_ok h with ⟨hnil, -⟩ | hsettles
      · cases hnil
      · exact .inr (.inr hsettles)
    · split at h
      · rename_i s hpending
        exact .inr (.inl ⟨s, hpending, (Except.ok.inj h).symm⟩)
      · exact .inr (.inr (path_eq_ok h))

theorem Settles.not_awaiting {s : Setting} (h : r.Settles r') : r.pending ≠ .awaiting s := by
  intro hpending
  obtain ⟨g, items, hsettle, -⟩ := h.exists_items
  rw [hpending] at hsettle
  cases hsettle

theorem step_of_onlyPaths (honly : r.onlyPaths = true) (h : r.step arg = .ok r') : r.Settles r' := by
  unfold Reading.step at h
  rw [if_pos honly] at h
  exact path_eq_ok h

end Reading

theorem exists_items_of_settle {p : Pending} (h : p.settle g = .ok g') :
    ∃ items, Takes g items g' := by
  cases p with
  | nothing =>
    obtain rfl := Except.ok.inj h
    exact ⟨[], takes_nil g⟩
  | awaiting s => cases h
  | value s v => exact ⟨[.setting s v], takes_singleton.2 h⟩
  | path p => exact ⟨[.path p], takes_singleton.2 h⟩

theorem Reading.exists_items_of_step (h : r.step arg = .ok r') :
    ∃ items, Takes r.given items r'.given := by
  obtain ⟨-, rfl⟩ | ⟨s, -, rfl⟩ | hsettles := step_cases h
  · exact ⟨[], takes_nil _⟩
  · exact ⟨[], takes_nil _⟩
  · obtain ⟨g, items, hsettle, hitems⟩ := hsettles.exists_items
    obtain ⟨first, hfirst⟩ := exists_items_of_settle hsettle
    exact ⟨first ++ items, takes_append.2 ⟨g, hfirst, hitems⟩⟩

def Reads (r : Reading) (argv : List Text) (r' : Reading) : Prop :=
  argv.foldlM Reading.step r = .ok r'

theorem reads_cons : Reads r (arg :: argv) r' ↔ ∃ r₁, r.step arg = .ok r₁ ∧ Reads r₁ argv r' :=
  bind_eq_ok

theorem reads_append {more : List Text} :
    Reads r (argv ++ more) r' ↔ ∃ r₁, Reads r argv r₁ ∧ Reads r₁ more r' := by
  rw [Reads, List.foldlM_append]
  exact bind_eq_ok

theorem Reads.exists_items (h : Reads r argv r') : ∃ items, Takes r.given items r'.given := by
  induction argv generalizing r with
  | nil =>
    obtain rfl := Except.ok.inj h
    exact ⟨[], takes_nil _⟩
  | cons arg argv ih =>
    obtain ⟨r₁, hstep, hreads⟩ := reads_cons.1 h
    obtain ⟨first, hfirst⟩ := Reading.exists_items_of_step hstep
    obtain ⟨items, hitems⟩ := ih hreads
    exact ⟨first ++ items, takes_append.2 ⟨_, hfirst, hitems⟩⟩

theorem Reads.settles_first (h : Reads r argv r') (hpending : ∀ s, r.pending ≠ .awaiting s)
    (hsettle : r'.pending.settle r'.given = .ok g') :
    ∃ g items, r.pending.settle r.given = .ok g ∧ Takes g items g' := by
  induction argv generalizing r with
  | nil =>
    obtain rfl := Except.ok.inj h
    exact ⟨g', [], hsettle, takes_nil g'⟩
  | cons arg argv ih =>
    obtain ⟨r₁, hstep, hreads⟩ := reads_cons.1 h
    obtain ⟨-, rfl⟩ | ⟨s, hs, -⟩ | hsettles := Reading.step_cases hstep
    · exact (ih hreads hpending :)
    · exact absurd hs (hpending s)
    · obtain ⟨g, items, hg, hitems⟩ := hsettles.exists_items
      obtain ⟨more, hmore⟩ := hreads.exists_items
      obtain ⟨last, hlast⟩ := exists_items_of_settle hsettle
      exact ⟨g, items ++ (more ++ last), hg,
        takes_append.2 ⟨_, hitems, takes_append.2 ⟨_, hmore, hlast⟩⟩⟩

theorem onlyPaths_of_reads (h : Reads r argv r') (hargv : ['-', '-'] ∉ argv) :
    r'.onlyPaths = r.onlyPaths := by
  induction argv generalizing r with
  | nil =>
    obtain rfl := Except.ok.inj h
    rfl
  | cons arg argv ih =>
    rw [List.mem_cons, not_or] at hargv
    obtain ⟨r₁, hstep, hreads⟩ := reads_cons.1 h
    have hkept : r₁.onlyPaths = r.onlyPaths := by
      obtain ⟨rfl, -⟩ | ⟨s, -, rfl⟩ | hsettles := Reading.step_cases hstep
      · exact absurd rfl hargv.1
      · rfl
      · exact hsettles.onlyPaths_eq
    exact (ih hreads hargv.2).trans hkept

theorem parse_eq_ok : parse argv = .ok a ↔
    ∃ r g, Reads {} argv r ∧ r.pending.settle r.given = .ok g ∧ g.finish = .ok a := by
  rw [parse, bind_eq_ok]
  constructor
  · rintro ⟨r, hreads, h⟩
    obtain ⟨r', hsettle, hfinish⟩ := bind_eq_ok.1 h
    obtain ⟨g, hg, rfl⟩ := Reading.settle_eq_ok.1 hsettle
    exact ⟨r, g, hreads, hg, hfinish⟩
  · rintro ⟨r, g, hreads, hg, hfinish⟩
    exact ⟨r, hreads, bind_eq_ok.2 ⟨_, Reading.settle_eq_ok.2 ⟨g, hg, rfl⟩, hfinish⟩⟩

theorem exists_items_of_parse (h : parse argv = .ok a) :
    ∃ items g, Takes {} items g ∧ g.finish = .ok a := by
  obtain ⟨r, g, hreads, hsettle, hfinish⟩ := parse_eq_ok.1 h
  obtain ⟨items, hitems⟩ := hreads.exists_items
  obtain ⟨last, hlast⟩ := exists_items_of_settle hsettle
  exact ⟨items ++ last, g, takes_append.2 ⟨r.given, hitems, hlast⟩, hfinish⟩

def bare (name : Text) : Text :=
  '-' :: '-' :: name

def assigned (name value : Text) : Text :=
  bare (name ++ '=' :: value)

theorem longNames_plain : ∀ n ∈ longNames, n.1 ≠ [] ∧ '=' ∉ n.1 := by decide

section LongNames

variable {name : Text} {o : Opt} {s : Setting} {f : Flag}

theorem plain_of_lookup (h : longNames.lookup name = some o) : name ≠ [] ∧ '=' ∉ name := by
  obtain ⟨before, after, hnames, -⟩ := List.lookup_eq_some_iff.1 h
  have hmem : (name, o) ∈ longNames := by
    rw [hnames]
    exact List.mem_append_right _ List.mem_cons_self
  exact longNames_plain _ hmem

namespace Reading

theorem step_bare (honly : r.onlyPaths = false) (hname : name ≠ []) :
    r.step (bare name) = r.long name := by
  obtain ⟨c, rest, rfl⟩ := List.exists_cons_of_ne_nil hname
  simp [bare, Reading.step, honly]

theorem takeWhile_name (h : longNames.lookup name = some o) (value : Text) :
    name.takeWhile (· != '=') = name ∧ (name ++ '=' :: value).takeWhile (· != '=') = name := by
  have hne : ∀ c ∈ name, c != '=' := by
    intro c hc
    simpa using ne_of_mem_of_not_mem hc (plain_of_lookup h).2
  refine ⟨List.takeWhile_eq_self_iff.2 hne, ?_⟩
  rw [List.takeWhile_append_of_pos hne]
  simp

theorem step_flag (honly : r.onlyPaths = false) (h : longNames.lookup name = some (.flag f)) :
    r.step (bare name) = r.flag f := by
  rw [step_bare honly (plain_of_lookup h).1]
  simp only [Reading.long, (takeWhile_name h []).1, h, List.drop_length]

theorem step_await (honly : r.onlyPaths = false) (h : longNames.lookup name = some (.setting s)) :
    r.step (bare name) = r.await s := by
  rw [step_bare honly (plain_of_lookup h).1]
  simp only [Reading.long, (takeWhile_name h []).1, h, List.drop_length]

theorem step_assigned (honly : r.onlyPaths = false)
    (h : longNames.lookup name = some (.setting s)) (value : Text) :
    r.step (assigned name value) = r.attached s value := by
  have hne : name ++ '=' :: value ≠ [] := List.append_ne_nil_of_right_ne_nil _ (List.cons_ne_nil _ _)
  rw [assigned, step_bare honly hne]
  simp only [Reading.long, (takeWhile_name h value).2, h, List.drop_left]

end Reading

end LongNames

end TildeMerge.Command
