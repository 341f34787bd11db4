import Mathlib.Data.List.Basic

/-!
# Records of calls

A program keeps a record of the calls it has made. `after` is what a call
makes of the state outside of the program, `ok` what that state has to be like
for the call to be in order. A record is `Traced` if each of its calls was in
order where it was made; records are extended at their end (`traced_append`) and
taken apart at a call (`Traced.ok_at`).
-/

namespace Lib

variable {σ γ : Type*} {after : σ → γ → σ} {ok : σ → γ → Prop} {s : σ}

def Traced (after : σ → γ → σ) (ok : σ → γ → Prop) : σ → List γ → Prop
  | _, [] => True
  | s, c :: calls => ok s c ∧ Traced after ok (after s c) calls

theorem traced_append {calls calls' : List γ} : Traced after ok s (calls ++ calls') ↔
    Traced after ok s calls ∧ Traced after ok (calls.foldl after s) calls' := by
  induction calls generalizing s with
  | nil => exact (iff_of_eq (true_and _)).symm
  | cons c calls ih =>
      rw [List.cons_append, Traced, Traced, ih, List.foldl_cons, and_assoc]

theorem Traced.append {calls calls' : List γ} (h : Traced after ok s calls)
    (h' : Traced after ok (calls.foldl after s) calls') : Traced after ok s (calls ++ calls') :=
  traced_append.mpr ⟨h, h'⟩

theorem Traced.ok_at {before rest : List γ} {c : γ}
    (h : Traced after ok s (before ++ c :: rest)) : ok (before.foldl after s) c :=
  (traced_append.mp h).2.1

end Lib
