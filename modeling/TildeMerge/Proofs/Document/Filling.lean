import TildeMerge.Proofs.Document.Basic
import TildeMerge.Proofs.Passes
import TildeMerge.Proofs.Results

namespace TildeMerge.Document

open Markup

variable {t : Text} {body body' : List BodyPart} {d d' : List Part}

def BodyPart.pieces : BodyPart → List Piece
  | literal t => t.map .plain
  | item path => ('.' :: path).map .plain
  | scalar path => [.placeholder path]

def Part.pieces : Part → List Piece
  | literal t => t.map .plain
  | scalar path => [.placeholder path]
  | block collection body =>
    (opener ++ headRest collection ++ ['\n']).map .plain ++ body.flatMap BodyPart.pieces ++
      ('\n' :: closing).map .plain

theorem printBody_cons (part : BodyPart) (rest : List BodyPart) :
    printBody (part :: rest) = part.print ++ printBody rest := rfl

theorem print_cons (part : Part) (rest : List Part) :
    print (part :: rest) = part.print ++ print rest := rfl

theorem scalarPieces_body (hb : BodyWellFormed body) (ht : EndsRun t) :
    scalarPieces (printBody body ++ t) = body.flatMap BodyPart.pieces ++ scalarPieces t := by
  induction body with
  | nil => rfl
  | cons part rest ih =>
    rw [printBody_cons, List.append_assoc, List.flatMap_cons, List.append_assoc]
    cases part with
    | literal s =>
      obtain ⟨htilde, -, hrest⟩ := hb
      rw [BodyPart.print, scalarPieces_append_of_plain htilde, ih hrest]
      rfl
    | item path =>
      obtain ⟨-, hp, -, -, hrest⟩ := hb
      have htilde : '~' ∉ '.' :: path := by simpa using hp.tilde_notMem
      rw [BodyPart.print, scalarPieces_append_of_plain htilde, ih hrest]
      rfl
    | scalar path =>
      obtain ⟨hw, hp, hends, hrest⟩ := hb
      rw [BodyPart.print, List.cons_append,
        scalarPieces_placeholder hw hp (hends.append ht), ih hrest]
      rfl

theorem scalarPieces_marker {s : Text} (hs : '~' ∉ s) (t : Text) :
    scalarPieces ('~' :: '.' :: s ++ t) = ('~' :: '.' :: s).map .plain ++ scalarPieces t := by
  have hdot : '~' ∉ '.' :: s := by simpa using hs
  have hw : Text.startsWord ('.' :: s ++ t) = false := rfl
  rw [List.cons_append, scalarPieces_tilde hw, scalarPieces_append_of_plain hdot]
  rfl

theorem tilde_notMem_headRest {collection : Text} (h : IsRun collection) :
    '~' ∉ headRest collection := by
  have hc := h.tilde_notMem
  simpa [headRest, Directives.forKeyword] using hc

theorem scalarPieces_print (hd : WellFormed d) :
    scalarPieces (print d) = d.flatMap Part.pieces := by
  induction d with
  | nil => rfl
  | cons part rest ih =>
    rw [print_cons, List.flatMap_cons]
    cases part with
    | literal s =>
      obtain ⟨htilde, hrest⟩ := hd
      rw [Part.print, scalarPieces_append_of_plain htilde, ih hrest]
      rfl
    | scalar path =>
      obtain ⟨hw, hp, hends, hrest⟩ := hd
      rw [Part.print, List.cons_append, scalarPieces_placeholder hw hp hends, ih hrest]
      rfl
    | block collection body =>
      obtain ⟨-, hc, hb, hrest⟩ := hd
      have hhead : '~' ∉ headRest collection ++ ['\n'] := by
        simpa using tilde_notMem_headRest hc
      have hcloser : '~' ∉ ['e', 'n', 'd'] := by decide
      have hends : EndsRun ('\n' :: (closing ++ print rest)) := endsRun_cons.2 isPathChar_newline
      have hbreak : ('\n' : Char) ≠ '~' := by decide
      calc scalarPieces ((Part.block collection body).print ++ print rest)
          = scalarPieces (('~' :: '.' :: (headRest collection ++ ['\n'])) ++
              (printBody body ++ '\n' :: (closing ++ print rest))) := by
            simp [Part.print, blockInside, opener]
        _ = ('~' :: '.' :: (headRest collection ++ ['\n'])).map .plain ++
              (body.flatMap BodyPart.pieces ++
                scalarPieces ('\n' :: (closing ++ print rest))) := by
            rw [scalarPieces_marker hhead, scalarPieces_body hb hends]
        _ = ('~' :: '.' :: (headRest collection ++ ['\n'])).map .plain ++
              (body.flatMap BodyPart.pieces ++
                .plain '\n' :: (closing.map .plain ++ scalarPieces (print rest))) := by
            rw [scalarPieces_cons hbreak, closing, closer, scalarPieces_marker hcloser]
        _ = (Part.block collection body).pieces ++ rest.flatMap Part.pieces := by
            rw [ih hrest]
            simp [Part.pieces, opener]

variable (record : Value) (policy : GapPolicy)

def BodyPart.fill : BodyPart → Except Error BodyPart
  | scalar path => .literal <$> insertedText record policy path
  | part => .ok part

def Part.fill : Part → Except Error Part
  | literal t => .ok (.literal t)
  | scalar path => .literal <$> insertedText record policy path
  | block collection body => .block collection <$> body.mapM (BodyPart.fill record policy)

theorem resolveIn_result (path : Text) :
    (resolveIn record policy path).result = insertedText record policy path := by
  unfold resolveIn insertedText
  cases record.lookup path with
  | some v => rfl
  | none => cases policy <;> rfl

theorem splice_placeholder_result (path : Text) :
    (splice (resolveIn record policy) [.placeholder path]).result =
      insertedText record policy path := by
  simp only [splice, Logged.bind_result, resolveIn_result]
  cases insertedText record policy path with
  | error e => rfl
  | ok s => exact congrArg Except.ok (List.append_nil s)

theorem splice_bodyPart_result (part : BodyPart) :
    (splice (resolveIn record policy) part.pieces).result =
      BodyPart.print <$> part.fill record policy := by
  cases part with
  | literal s => exact congrArg Logged.result (splice_plain _ s)
  | item path => exact congrArg Logged.result (splice_plain _ ('.' :: path))
  | scalar path =>
    rw [BodyPart.pieces, splice_placeholder_result, BodyPart.fill]
    cases insertedText record policy path <;> rfl

theorem splice_part_result (part : Part) :
    (splice (resolveIn record policy) part.pieces).result =
      Part.print <$> part.fill record policy := by
  cases part with
  | literal s => exact congrArg Logged.result (splice_plain _ s)
  | scalar path =>
    rw [Part.pieces, splice_placeholder_result, Part.fill]
    cases insertedText record policy path <;> rfl
  | block collection body =>
    have hbody := splice_flatMap_result (l := body) _
      fun part _ ↦ splice_bodyPart_result record policy part
    rw [Part.pieces, List.append_assoc, splice_plain_append, splice_append, splice_plain]
    simp only [Logged.map_result, Logged.bind_result, hbody, Part.fill]
    cases body.mapM (BodyPart.fill record policy) with
    | error e => rfl
    | ok filled =>
      have hprint : opener ++ headRest collection ++ ['\n'] ++ (printBody filled ++ '\n' :: closing) =
          (Part.block collection filled).print := by
        simp [Part.print, blockInside]
      exact congrArg Except.ok hprint

theorem scalarPass_print (directives : Directives) (options : Options) (hd : WellFormed d) :
    ((⟨directives, options⟩ : Engine).scalarPass (print d) record).result =
      print <$> d.mapM (Part.fill record options.missing) := by
  rw [Engine.scalarPass, Logged.bind_result, scalarPieces_print hd,
    splice_flatMap_result _ fun part _ ↦ splice_part_result record options.missing part]
  rfl

def FilledBody : List BodyPart → Prop
  | [] => True
  | .literal t :: rest => '~' ∉ t ∧ '.' ∉ t ∧ FilledBody rest
  | .item path :: rest => path ≠ [] ∧ IsRun path ∧ EndsRun (printBody rest) ∧ FilledBody rest
  | .scalar _ :: _ => False

def Part.Filled : Part → Prop
  | literal t => '~' ∉ t
  | scalar _ => False
  | block collection body => collection ≠ [] ∧ IsRun collection ∧ FilledBody body

variable {record policy}

theorem head?_printBody_fill (htilde : (printBody body).head? ≠ some '~')
    (hfill : body.mapM (BodyPart.fill record policy) = .ok body') :
    (printBody body').head? = (printBody body).head? := by
  induction body generalizing body' with
  | nil =>
    obtain rfl : [] = body' := Except.ok.inj hfill
    rfl
  | cons part rest ih =>
    obtain ⟨part', rest', hpart, hrest, rfl⟩ := mapM_cons_eq_ok.1 hfill
    cases part with
    | literal s =>
      obtain rfl : .literal s = part' := Except.ok.inj hpart
      cases s with
      | nil =>
        have hhead := ih htilde hrest
        exact hhead
      | cons c s => rfl
    | item path =>
      obtain rfl : .item path = part' := Except.ok.inj hpart
      rfl
    | scalar path => exact absurd rfl htilde

theorem filledBody_fill (hb : BodyWellFormed body)
    (hv : ∀ path ∈ bodyScalars body, ∀ t,
      insertedText record policy path = .ok t → '~' ∉ t ∧ '.' ∉ t)
    (hfill : body.mapM (BodyPart.fill record policy) = .ok body') : FilledBody body' := by
  induction body generalizing body' with
  | nil =>
    obtain rfl : [] = body' := Except.ok.inj hfill
    trivial
  | cons part rest ih =>
    obtain ⟨part', rest', hpart, hrest, rfl⟩ := mapM_cons_eq_ok.1 hfill
    have hv' : ∀ path ∈ bodyScalars rest, ∀ t,
        insertedText record policy path = .ok t → '~' ∉ t ∧ '.' ∉ t := by
      intro path hpath
      exact hv path (List.mem_append_right part.scalars hpath)
    cases part with
    | literal s =>
      obtain rfl : .literal s = part' := Except.ok.inj hpart
      obtain ⟨htilde, hdot, hwf⟩ := hb
      exact ⟨htilde, hdot, ih hwf hv' hrest⟩
    | item path =>
      obtain rfl : .item path = part' := Except.ok.inj hpart
      obtain ⟨hne, hp, hends, htilde, hwf⟩ := hb
      have hends' : EndsRun (printBody rest') :=
        .of_head?_eq (head?_printBody_fill htilde hrest) hends
      exact ⟨hne, hp, hends', ih hwf hv' hrest⟩
    | scalar path =>
      obtain ⟨s, hs, rfl⟩ := map_eq_ok.1 hpart
      obtain ⟨-, -, -, hwf⟩ := hb
      obtain ⟨htilde, hdot⟩ := hv path List.mem_cons_self s hs
      exact ⟨htilde, hdot, ih hwf hv' hrest⟩

theorem filled_fill {options : Options} (hd : WellFormed d) (hv : PlainValues record options d)
    (hfill : d.mapM (Part.fill record options.missing) = .ok d') : ∀ part ∈ d', part.Filled := by
  induction d generalizing d' with
  | nil =>
    obtain rfl : [] = d' := Except.ok.inj hfill
    intro part hpart
    cases hpart
  | cons part rest ih =>
    obtain ⟨part', rest', hpart, hrest, rfl⟩ := mapM_cons_eq_ok.1 hfill
    have hv₁ : part.PlainValues record options := hv part List.mem_cons_self
    have hv₂ : PlainValues record options rest := fun q hq ↦ hv q (List.mem_cons_of_mem part hq)
    rw [List.forall_mem_cons]
    cases part with
    | literal s =>
      obtain rfl : .literal s = part' := Except.ok.inj hpart
      exact ⟨hd.1, ih hd.2 hv₂ hrest⟩
    | scalar path =>
      obtain ⟨s, hs, rfl⟩ := map_eq_ok.1 hpart
      exact ⟨hv₁ s hs, ih hd.2.2.2 hv₂ hrest⟩
    | block collection body =>
      obtain ⟨body', hbody, rfl⟩ := map_eq_ok.1 hpart
      obtain ⟨hne, hc, hb, hwf⟩ := hd
      exact ⟨⟨hne, hc, filledBody_fill hb hv₁ hbody⟩, ih hwf hv₂ hrest⟩

theorem BodyPart.eval_fill {options : Options} {part part' : BodyPart} (item : Value)
    (h : part.fill record options.missing = .ok part') :
    part'.eval record options item = part.eval record options item := by
  cases part with
  | literal s =>
    obtain rfl : .literal s = part' := Except.ok.inj h
    rfl
  | item path =>
    obtain rfl : .item path = part' := Except.ok.inj h
    rfl
  | scalar path =>
    obtain ⟨s, hs, rfl⟩ := map_eq_ok.1 h
    exact hs.symm

theorem BodyPart.scalars_fill {part part' : BodyPart} (h : part.fill record policy = .ok part') :
    part'.scalars = [] := by
  cases part with
  | literal s =>
    obtain rfl : .literal s = part' := Except.ok.inj h
    rfl
  | item path =>
    obtain rfl : .item path = part' := Except.ok.inj h
    rfl
  | scalar path =>
    obtain ⟨s, -, rfl⟩ := map_eq_ok.1 h
    rfl

theorem bodyScalars_fill (hfill : body.mapM (BodyPart.fill record policy) = .ok body') :
    bodyScalars body' = [] := by
  induction body generalizing body' with
  | nil =>
    obtain rfl : [] = body' := Except.ok.inj hfill
    rfl
  | cons part rest ih =>
    obtain ⟨part', rest', hpart, hrest, rfl⟩ := mapM_cons_eq_ok.1 hfill
    rw [bodyScalars, List.flatMap_cons, BodyPart.scalars_fill hpart, List.nil_append]
    exact ih hrest

theorem evalBody_fill {options : Options} (item : Value)
    (hfill : body.mapM (BodyPart.fill record options.missing) = .ok body') :
    evalBody record options item body' = evalBody record options item body :=
  congrArg (List.flatten <$> ·) (mapM_of_mapM (fun _ _ h ↦ BodyPart.eval_fill item h) hfill)

theorem unit_mapM_scalars_bodyPart (part : BodyPart) :
    (fun _ ↦ ()) <$> part.scalars.mapM (insertedText record policy) =
      (fun _ ↦ ()) <$> part.fill record policy := by
  cases part with
  | literal s => rfl
  | item path => rfl
  | scalar path =>
    simp only [BodyPart.scalars, BodyPart.fill, List.mapM_cons]
    cases insertedText record policy path <;> rfl

theorem unit_mapM_bodyScalars (body : List BodyPart) :
    (fun _ ↦ ()) <$> (bodyScalars body).mapM (insertedText record policy) =
      (fun _ ↦ ()) <$> body.mapM (BodyPart.fill record policy) :=
  unit_mapM_flatMap unit_mapM_scalars_bodyPart body

theorem unit_mapM_scalars_part (part : Part) :
    (fun _ ↦ ()) <$> part.scalars.mapM (insertedText record policy) =
      (fun _ ↦ ()) <$> part.fill record policy := by
  cases part with
  | literal s => rfl
  | scalar path =>
    simp only [Part.scalars, Part.fill, List.mapM_cons]
    cases insertedText record policy path <;> rfl
  | block collection body =>
    rw [Part.scalars, unit_mapM_bodyScalars, Part.fill]
    cases body.mapM (BodyPart.fill record policy) <;> rfl

theorem unit_mapM_scalars (record : Value) (policy : GapPolicy) (d : List Part) :
    (fun _ ↦ ()) <$> (scalars d).mapM (insertedText record policy) =
      (fun _ ↦ ()) <$> d.mapM (Part.fill record policy) :=
  unit_mapM_flatMap unit_mapM_scalars_part d

theorem Part.eval_fill {options : Options} {part part' : Part}
    (h : part.fill record options.missing = .ok part') :
    part'.eval record options = part.eval record options := by
  cases part with
  | literal s =>
    obtain rfl : .literal s = part' := Except.ok.inj h
    rfl
  | scalar path =>
    obtain ⟨s, hs, rfl⟩ := map_eq_ok.1 h
    exact hs.symm
  | block collection body =>
    obtain ⟨body', hbody, rfl⟩ := map_eq_ok.1 h
    have hitems (items : List Value) :
        evalItems record options body' items = evalItems record options body items := by
      simp only [evalItems, evalBody_fill _ hbody]
    obtain ⟨texts, htexts⟩ := exists_ok_of_unit_eq (unit_mapM_bodyScalars body) hbody
    simp only [Part.eval, bodyScalars_fill hbody, htexts, hitems]
    rfl

theorem eval_fill {options : Options} (hfill : d.mapM (Part.fill record options.missing) = .ok d') :
    eval record options d' = eval record options d :=
  congrArg (List.flatten <$> ·) (mapM_of_mapM (fun _ _ h ↦ Part.eval_fill h) hfill)

end TildeMerge.Document
