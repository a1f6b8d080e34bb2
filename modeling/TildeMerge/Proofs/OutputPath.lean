import TildeMerge.Proofs.Files.Components
import TildeMerge.Proofs.Results
import TildeMerge.Render.OutputPath
import Mathlib.Data.List.Forall2

namespace TildeMerge

open TildeMerge.Path

/-- A component and what stands in its place: a name for a name, and all else as it was. -/
inductive Path.Component.SameKind : Component → Component → Prop
  | root : SameKind .root .root
  | current : SameKind .current .current
  | parent : SameKind .parent .parent
  | normal (name name' : Text) : SameKind (.normal name) (.normal name')

/-- The text is one name, if it is read as a path. -/
def Path.IsName (t : Text) : Prop :=
  ∃ name, components t = [.normal name]

/-- Each name of an output is rendered to a name. -/
def Engine.RendersNames (e : Engine) (output : Text) (record : Value) : Prop :=
  ∀ name, .normal name ∈ components output →
    ∀ t, (e.renderName record name).result = .ok t → IsName t

variable {e : Engine} {record : Value} {output target p : Text} {cs : List Component}

theorem pushRendered_isAbsolute (ht : isAbsolute target = true)
    (h : (e.pushRendered record target cs).result = .ok p) : isAbsolute p = true := by
  induction cs generalizing target with
  | nil =>
    obtain rfl := Except.ok.inj h
    exact ht
  | cons c cs ih =>
    cases c with
    | normal name =>
      rw [Engine.pushRendered, Logged.bind_result] at h
      obtain ⟨t, -, hrest⟩ := bind_eq_ok.1 h
      exact ih (isAbsolute_push ht t) hrest
    | _ => exact ih (isAbsolute_push ht _) h

theorem anchor_parent : anchor Component.parent.text = [] := rfl

theorem pushRendered_components (hcs : ∀ c ∈ cs, c = .parent ∨ ∃ name, c = .normal name)
    (hnames : ∀ name, .normal name ∈ cs →
      ∀ t, (e.renderName record name).result = .ok t → IsName t)
    (h : (e.pushRendered record target cs).result = .ok p) :
    ∃ cs', components p = components target ++ cs' ∧ List.Forall₂ Component.SameKind cs cs' := by
  induction cs generalizing target with
  | nil =>
    obtain rfl := Except.ok.inj h
    exact ⟨[], (List.append_nil _).symm, .nil⟩
  | cons c cs ih =>
    obtain ⟨hc, hrest⟩ := List.forall_mem_cons.1 hcs
    have hnames' : ∀ name, .normal name ∈ cs →
        ∀ t, (e.renderName record name).result = .ok t → IsName t :=
      fun name hname ↦ hnames name (List.mem_cons_of_mem c hname)
    rcases hc with rfl | ⟨name, rfl⟩
    · have hpushed : (e.pushRendered record (push target Component.parent.text) cs).result = .ok p := h
      obtain ⟨cs', hp, hkinds⟩ := ih hrest hnames' hpushed
      refine ⟨.parent :: cs', ?_, .cons .parent hkinds⟩
      rw [hp, components_push target anchor_parent, List.append_assoc]
      rfl
    · rw [Engine.pushRendered, Logged.bind_result] at h
      obtain ⟨t, ht, h⟩ := bind_eq_ok.1 h
      obtain ⟨name', hname'⟩ := hnames name List.mem_cons_self t ht
      obtain ⟨cs', hp, hkinds⟩ := ih hrest hnames' h
      refine ⟨.normal name' :: cs', ?_, .cons (.normal name name') hkinds⟩
      rw [hp, components_push target (anchor_eq_nil hname'), hname', List.append_assoc]
      rfl

theorem renderPath_eq_ok : (e.renderPath output record).result = .ok p ↔
    (e.pushRendered record [] (components output)).result = .ok p := by
  rw [Engine.renderPath, Logged.bind_result]
  cases (e.pushRendered record [] (components output)).result <;> rfl

theorem head?_components : (components output).head? = some .root ↔ isAbsolute output = true := by
  rw [components_eq]
  unfold anchor
  split
  · rename_i ha
    simp [ha]
  · rename_i ha
    split
    · simp [ha]
    · refine iff_of_false (fun hroot ↦ ?_) ha
      rcases mem_ofSegments (List.mem_of_head? hroot) with h | ⟨name, h⟩ <;> cases h

/-- A rendered path starts at the root if its output does. If each name is rendered to one name, then it
has the components of its output, but for other names in the place of the names. -/
theorem renderPath_components (h : (e.renderPath output record).result = .ok p) :
    ((components output).head? = some .root → (components p).head? = some .root) ∧
      (e.RendersNames output record →
        List.Forall₂ Component.SameKind (components output) (components p)) := by
  rw [renderPath_eq_ok, components_eq output] at h
  rw [head?_components, head?_components]
  constructor
  · intro ha
    have hanchor : anchor output = [.root] := if_pos ha
    have hslash : isAbsolute ['/'] = true := rfl
    rw [hanchor] at h
    exact pushRendered_isAbsolute hslash h
  · intro hnames
    have hrest : ∀ name, .normal name ∈ ofSegments (segments output) →
        ∀ t, (e.renderName record name).result = .ok t → IsName t := by
      intro name hname
      refine hnames name ?_
      rw [components_eq]
      exact List.mem_append_right _ hname
    have hpush (start : Text)
        (hp : (e.pushRendered record start (ofSegments (segments output))).result = .ok p) :=
      pushRendered_components (fun _ ↦ mem_ofSegments) hrest hp
    rw [components_eq output]
    unfold anchor at h ⊢
    split at h
    · rename_i ha
      obtain ⟨cs', hp, hkinds⟩ := hpush ['/'] h
      rw [if_pos ha, hp]
      exact .cons .root hkinds
    · rename_i ha
      rw [if_neg ha]
      split at h
      · rename_i hdot
        obtain ⟨cs', hp, hkinds⟩ := hpush ['.'] h
        rw [if_pos hdot, hp]
        exact .cons .current hkinds
      · rename_i hdot
        obtain ⟨cs', hp, hkinds⟩ := hpush [] h
        rw [if_neg hdot, hp]
        exact hkinds

def dottedOutput : Text :=
  ['/', 'a', '/', '.', '.', '/', '~', 'x', '.', 't']

theorem renderPath_components_dottedOutput :
    (({} : Engine).renderPath dottedOutput (.record [(['x'], .text ['.', '.'])])).result =
        .ok ['/', 'a', '/', '.', '.', '/', '.', '.', '.', 't'] ∧
      ({} : Engine).RendersNames dottedOutput (.record [(['x'], .text ['.', '.'])]) ∧
      List.Forall₂ Component.SameKind (components dottedOutput)
        (components ['/', 'a', '/', '.', '.', '/', '.', '.', '.', 't']) := by
  have hpath : (({} : Engine).renderPath dottedOutput (.record [(['x'], .text ['.', '.'])])).result =
      .ok ['/', 'a', '/', '.', '.', '/', '.', '.', '.', 't'] := rfl
  have hnames : ({} : Engine).RendersNames dottedOutput (.record [(['x'], .text ['.', '.'])]) := by
    intro name hname t ht
    have hcomponents : components dottedOutput =
        [.root, .normal ['a'], .parent, .normal ['~', 'x', '.', 't']] := by
      decide
    have hname' : name = ['a'] ∨ name = ['~', 'x', '.', 't'] := by
      simpa [hcomponents] using hname
    rcases hname' with rfl | rfl
    · obtain rfl : ['a'] = t := Except.ok.inj ht
      exact ⟨['a'], by decide⟩
    · obtain rfl : ['.', '.', '.', 't'] = t := Except.ok.inj ht
      exact ⟨['.', '.', '.', 't'], by decide⟩
  exact ⟨hpath, hnames, (renderPath_components hpath).2 hnames⟩

/-- Without a condition on the names a value can lead elsewhere: a text that starts with a slash
replaces what the output names before it. -/
theorem renderPath_components_absoluteValue :
    ¬ ∀ (e : Engine) (output p : Text) (record : Value), (e.renderPath output record).result = .ok p →
      List.Forall₂ Component.SameKind (components output) (components p) := by
  intro hall
  have hkinds := hall {} ['o', 'u', 't', '/', '~', 'x'] ['/', 'b']
    (.record [(['x'], .text ['/', 'b'])]) rfl
  have houtput : components ['o', 'u', 't', '/', '~', 'x'] =
      [.normal ['o', 'u', 't'], .normal ['~', 'x']] := by
    decide
  have hp : components ['/', 'b'] = [.root, .normal ['b']] := by decide
  rw [houtput, hp] at hkinds
  cases hkinds with
  | cons hkind _ => cases hkind

end TildeMerge
