import TildeMerge.Text.Encoding

namespace TildeMerge

theorem Utf8.encode_append (s t : Text) : encode (s ++ t) = encode s ++ encode t :=
  List.flatMap_append

namespace Utf16

theorem units_append (s t : Text) : units (s ++ t) = units s ++ units t :=
  List.flatMap_append

theorem encodeLittle_append (s t : Text) :
    encodeLittle (s ++ t) = encodeLittle s ++ encodeLittle t := by
  rw [encodeLittle, units_append, List.flatMap_append]
  rfl

theorem encodeBig_append (s t : Text) : encodeBig (s ++ t) = encodeBig s ++ encodeBig t := by
  rw [encodeBig, units_append, List.flatMap_append]
  rfl

end Utf16

namespace Encoding

variable {e : Encoding}

/-- What is read between two texts that stand one behind the other. -/
def joint : Encoding → Text
  | utf8Bom => ['\uFEFF']
  | utf8 | utf16Little | utf16Big => []

theorem encode_joint (e : Encoding) (s t : Text) :
    e.encode (s ++ e.joint ++ t) = e.encode s ++ e.encode t := by
  rw [List.append_assoc]
  cases e with
  | utf8 => exact Utf8.encode_append s t
  | utf8Bom =>
    have hmark : Utf8.encode ['\uFEFF'] = byteOrderMark := by decide
    simp only [encode, joint, Utf8.encode_append, hmark, List.append_assoc]
  | utf16Little => exact Utf16.encodeLittle_append s t
  | utf16Big => exact Utf16.encodeBig_append s t

theorem encode_intercalate (e : Encoding) (t : Text) (ts : List Text) :
    e.encode (e.joint.intercalate (t :: ts)) = e.encode t ++ ts.flatMap e.encode := by
  induction ts generalizing t with
  | nil => simp
  | cons u us ih => rw [List.intercalate_cons_cons, encode_joint, ih, List.flatMap_cons]

theorem intercalate_joint (h : e ≠ .utf8Bom) (ts : List Text) :
    e.joint.intercalate ts = ts.flatten := by
  have hjoint : e.joint = [] := by
    cases e with
    | utf8Bom => exact absurd rfl h
    | utf8 | utf16Little | utf16Big => rfl
  rw [hjoint]
  induction ts with
  | nil => rfl
  | cons t ts ih =>
    cases ts with
    | nil => simp
    | cons u us => rw [List.intercalate_cons_cons, ih, List.append_nil, ← List.flatten_cons]

theorem length_flatMap_utf8Bom (ts : List Text) :
    (ts.flatMap utf8Bom.encode).length = 3 * ts.length + (Utf8.encode ts.flatten).length := by
  induction ts with
  | nil => rfl
  | cons t ts ih =>
    rw [List.flatMap_cons, List.flatten_cons, Utf8.encode_append, List.length_append, ih]
    simp only [encode, byteOrderMark, List.length_append, List.length_cons, List.length_nil]
    omega

theorem encode_flatten_iff (e : Encoding) (t : Text) (ts : List Text) :
    e.encode t ++ ts.flatMap e.encode = e.encode (t :: ts).flatten ↔ e ≠ .utf8Bom ∨ ts = [] := by
  constructor
  · intro h
    by_cases hbom : e = .utf8Bom
    · subst hbom
      have hlength := length_flatMap_utf8Bom (t :: ts)
      rw [List.flatMap_cons, h] at hlength
      simp only [encode, byteOrderMark, List.length_append, List.length_cons, List.length_nil]
        at hlength
      exact .inr (List.length_eq_zero_iff.1 (by omega))
    · exact .inl hbom
  · rintro (hbom | rfl)
    · rw [← encode_intercalate, intercalate_joint hbom]
    · simp

end Encoding

end TildeMerge
