import SimplexMethod.Proofs.BasisInverse

namespace SimplexMethod
open Matrix Vec Outcome

namespace RowMatrix

theorem eq_of_toMatrix_eq {a b : RowMatrix ℚ} {m n : ℕ} (heightA : a.height = m)
    (widthA : a.width = n) (heightB : b.height = m) (widthB : b.width = n)
    (same : a.toMatrix m n = b.toMatrix m n) : a = b := by
  have rows : a.rows = b.rows := by
    apply List.ext_getElem (heightA.trans heightB.symm)
    intro i insideA insideB
    rw [← row_eq_getElem a insideA, ← row_eq_getElem b insideB]
    apply eq_of_toFun_eq ((length_row a i).trans widthA) ((length_row b i).trans widthB)
    exact congrFun same ⟨i, insideA.trans_eq heightA⟩
  cases a
  cases b
  rw [mk.injEq]
  exact ⟨rows, widthA.trans widthB.symm⟩

end RowMatrix

namespace BasisInverse

variable {m : ℕ} {b b' : BasisInverse ℚ} {B : Matrix (Fin m) (Fin m) ℚ}

theorem Inverts.mul_matrix_eq_one (inverts : b.Inverts B) : B * b.matrix m = 1 :=
  mul_eq_one_comm.1 inverts.mul_eq_one

theorem Inverts.inverse_eq (inverts : b.Inverts B) (inverts' : b'.Inverts B) :
    b.inverse = b'.inverse :=
  RowMatrix.eq_of_toMatrix_eq inverts.height inverts.width inverts'.height inverts'.width
    (left_inv_eq_right_inv inverts.mul_eq_one inverts'.mul_matrix_eq_one)

/-- Columns take over positions one after another, each expressed in the basis that it finds. -/
def follow (b : BasisInverse ℚ) : List (Fin m × Vec ℚ) → Outcome ℚ (BasisInverse ℚ)
  | [] => .ok b
  | (position, entering) :: rest => do
    let column ← b.express entering
    let exchanged ← b.exchange position entering column
    exchanged.follow rest

def changed (B : Matrix (Fin m) (Fin m) ℚ) : List (Fin m × Vec ℚ) → Matrix (Fin m) (Fin m) ℚ
  | [] => B
  | (position, entering) :: rest => changed (B.updateCol position (toFun entering m)) rest

theorem Inverts.follow_yields {changes : List (Fin m × Vec ℚ)} (inverts : b.Inverts B)
    (fits : ∀ change ∈ changes, change.2.length = m) :
    (b.follow changes).Yields (fun last => last.Inverts (changed B changes))
      (· = .failed .singularMatrix) := by
  induction changes generalizing b B with
  | nil => exact inverts
  | cons change rest ih =>
      obtain ⟨position, entering⟩ := change
      have length : entering.length = m := fits (position, entering) List.mem_cons_self
      obtain ⟨column, expressed, lengthColumn, entries⟩ := inverts.express_eq length
      rw [follow, expressed, ok_bind]
      apply (inverts.exchange_yields position length lengthColumn entries).bind
      intro exchanged inverts'
      exact ih inverts' fun later member => fits later (List.mem_cons_of_mem _ member)

def followed (upkeep : Upkeep) (p : LinearProgram ℚ) (basis : List ℕ)
    (changes : List (Fin m × Vec ℚ)) : Outcome ℚ (BasisInverse ℚ) := do
  let start ← ofBasis upkeep p basis
  start.follow changes

/-- Both hold the exact inverse of the matrix, unless one of them has found a matrix singular. -/
inductive Agree (B : Matrix (Fin m) (Fin m) ℚ) (first second : Outcome ℚ (BasisInverse ℚ)) : Prop
  | firstSingular (first : first = .error (.failed .singularMatrix))
  | secondSingular (second : second = .error (.failed .singularMatrix))
  | same (b b' : BasisInverse ℚ) (first : first = .ok b) (second : second = .ok b')
      (inverse_eq : b.inverse = b'.inverse) (height : b.inverse.height = m)
      (width : b.inverse.width = m) (left : b.matrix m * B = 1) (right : B * b.matrix m = 1)

theorem agree_of_yields {first second : Outcome ℚ (BasisInverse ℚ)}
    (yields : first.Yields (·.Inverts B) (· = .failed .singularMatrix))
    (yields' : second.Yields (·.Inverts B) (· = .failed .singularMatrix)) :
    Agree B first second := by
  cases first with
  | error fault => exact .firstSingular (congrArg Except.error yields)
  | ok b =>
      cases second with
      | error fault => exact .secondSingular (congrArg Except.error yields')
      | ok b' =>
          have inverts : b.Inverts B := yields
          exact .same b b' rfl rfl (inverts.inverse_eq yields') inverts.height inverts.width
            inverts.mul_eq_one inverts.mul_matrix_eq_one

theorem followed_yields {p : LinearProgram ℚ} {basis : List ℕ} {a : RowMatrix ℚ}
    (upkeep : Upkeep) (selected : p.basisMatrix? basis = some a) (height : a.height = m)
    (width : a.width = m) {changes : List (Fin m × Vec ℚ)}
    (fits : ∀ change ∈ changes, change.2.length = m) :
    (followed upkeep p basis changes).Yields
      (fun last => last.Inverts (changed (a.toMatrix m m) changes))
      (· = .failed .singularMatrix) := by
  rw [followed]
  apply (ofBasis_inverts upkeep selected height width).bind
  intro start inverts
  exact inverts.follow_yields fits

end BasisInverse

end SimplexMethod
