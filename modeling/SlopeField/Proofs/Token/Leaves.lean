import SlopeField.Equation.Solve
import SlopeField.Proofs.Expr.Leaves
import SlopeField.Proofs.Token.Scan
import SlopeField.Proofs.Token.Steps

/-!
# The leaves of a tree that is read

The variables of a tree that is read are `x` and `y`, and its constants are
finite numbers or named ones: the scanner makes no other token, and reordering
and building the tree only move tokens (`leavesIn_of_parse`).
-/

namespace SlopeField

variable {α : Type} {V : String → Prop} {K : α → Prop}

def Token.LeafIn (V : String → Prop) (K : α → Prop) : Token α → Prop
  | .number c => K c
  | .var name => V name
  | _ => True

def IsWritable (v : String) : Prop := v = independent ∨ v = dependent

-- ---------------------------------------------------------------------------
-- Scanning
-- ---------------------------------------------------------------------------

structure ReadsIn [Arithmetic α] [Numeral α] (K : α → Prop) : Prop where
  finite {c : α} : Arithmetic.isFinite c = true → K c
  pi : K Numeral.pi
  e : K Numeral.e

namespace Lexer

variable [Arithmetic α] [Numeral α] {t : Token α}

theorem readGlyph_leafIn {previous : Option (Token α)} {c : Char} (hK : ReadsIn K)
    (h : readGlyph? previous c = some t) : t.LeafIn IsWritable K := by
  unfold readGlyph? at h
  split at h <;> cases h
  case h_1 | h_2 =>
    unfold Token.minus
    split <;> trivial
  case h_13 => exact hK.pi
  all_goals trivial

theorem Produces.leafIn {previous : Option (Token α)} (hK : ReadsIn K)
    (h : Produces previous t) : t.LeafIn IsWritable K := by
  cases h with
  | number h =>
    obtain ⟨v, rfl, hf⟩ := readNumber_eq_ok h
    exact hK.finite hf
  | word h =>
    obtain rfl | rfl | ⟨v, rfl, hv⟩ | ⟨f, rfl⟩ := readWord_eq_ok h
    · exact hK.pi
    · exact hK.e
    · exact hv
    · trivial
  | glyph h => exact readGlyph_leafIn hK h

end Lexer

theorem leafIn_of_tokenize [Arithmetic α] [Numeral α] {text : String} {ts : List (Token α)}
    (hK : ReadsIn K) (h : tokenize text = .ok ts) : ∀ t ∈ ts, t.LeafIn IsWritable K := by
  have hin := Lexer.invariant_of_tokenize (P := fun tokens => ∀ t ∈ tokens, t.LeafIn IsWritable K)
    (fun _ _ ht hin => List.forall_mem_cons.mpr ⟨ht.leafIn hK, hin⟩) (by simp) h
  exact fun t ht => hin t (List.mem_reverse.mpr ht)

-- ---------------------------------------------------------------------------
-- Reordering and building
-- ---------------------------------------------------------------------------

def Yard.All (P : Token α → Prop) (y : Yard α) : Prop :=
  (∀ t ∈ y.operators, P t) ∧ ∀ t ∈ y.output, P t

section
variable {P : Token α → Prop} {y y' : Yard α} {ts out : List (Token α)}

theorem Yard.All.step {t : Token α} {next : Option (Token α)} (hy : y.All P) (ht : P t)
    (h : Steps y t next y') : y'.All P := by
  obtain ⟨hops, hout⟩ := hy
  cases h with
  | number | var => exact ⟨hops, by simpa [emit] using ⟨ht, hout⟩⟩
  | func | neg | lparen => exact ⟨by simpa [push] using ⟨ht, hops⟩, hout⟩
  | @op o _ =>
    refine ⟨?_, ?_⟩
    · simp only [push, release, List.mem_cons, forall_eq_or_imp]
      exact ⟨ht, fun u hu => hops u ((List.dropWhile_sublist _).mem hu)⟩
    · simp only [push, release, List.mem_append, List.mem_reverse]
      rintro u (hu | hu)
      · exact hops u ((List.takeWhile_sublist _).mem hu)
      · exact hout u hu
  | call heq _ =>
    simp only [heq, List.mem_append, List.mem_cons] at hops
    refine ⟨fun u hu => hops u (by simp [hu]), ?_⟩
    simp only [List.mem_cons, List.mem_append, List.mem_reverse]
    rintro u (rfl | hu | hu)
    · exact hops _ (by simp)
    · exact hops u (by simp [hu])
    · exact hout u hu
  | group heq _ =>
    simp only [heq, List.mem_append, List.mem_cons] at hops
    refine ⟨fun u hu => hops u (by simp [hu]), ?_⟩
    simp only [List.mem_append, List.mem_reverse]
    rintro u (hu | hu)
    · exact hops u (by simp [hu])
    · exact hout u hu

theorem Yard.All.run (hy : y.All P) (hts : ∀ t ∈ ts, P t) (h : y.run ts = .ok out) :
    ∀ t ∈ out, P t := by
  induction ts generalizing y with
  | nil =>
    obtain ⟨-, rfl⟩ := run_nil_eq_ok h
    simp only [List.mem_append, List.mem_reverse]
    rintro t (ht | ht)
    · exact hy.2 t ht
    · exact hy.1 t ht
  | cons t ts ih =>
    obtain ⟨y', hstep, hrun⟩ := run_cons_eq_ok h
    exact ih (hy.step (hts t (by simp)) hstep) (fun u hu => hts u (by simp [hu])) hrun

end

section
variable [Numeral α]

theorem Operand.leavesIn_of_step {st st' : List (Operand α)} {t : Token α}
    (hst : ∀ o ∈ st, o.tree.LeavesIn V K) (ht : t.LeafIn V K) (h : step st t = .ok st') :
    ∀ o ∈ st', o.tree.LeavesIn V K := by
  cases takes_of_step h with
  | number | var => exact List.forall_mem_cons.mpr ⟨ht, hst⟩
  | neg | func => exact List.forall_mem_cons.mpr (List.forall_mem_cons.mp hst)
  | op =>
    obtain ⟨hr, hst⟩ := List.forall_mem_cons.mp hst
    obtain ⟨hl, hst⟩ := List.forall_mem_cons.mp hst
    exact List.forall_mem_cons.mpr ⟨⟨hl, hr⟩, hst⟩

theorem leavesIn_of_reducePostfix {ts : List (Token α)} {e : Expr α}
    (hts : ∀ t ∈ ts, t.LeafIn V K) (h : reducePostfix ts = .ok e) : e.LeavesIn V K := by
  obtain ⟨st, hst, h⟩ := bind_eq_ok.mp h
  have hall : ∀ o ∈ st, o.tree.LeavesIn V K :=
    foldlM_invariant (fun st => ∀ o ∈ st, o.tree.LeavesIn V K)
      (fun t ht _ _ hin hstep => Operand.leavesIn_of_step hin (hts t ht) hstep) (by simp) hst
  split at h
  · cases h
    exact hall _ (by simp)
  · cases h

end

section
variable [Scalar α] [Numeral α] {text : String} {e : Expr α}

theorem leavesIn_of_parse (hread : ReadsIn K) (hK : Expr.Stable K)
    (h : Expr.parse text = .ok e) : e.LeavesIn IsWritable K := by
  obtain ⟨e, hread', h⟩ := bind_eq_ok.mp h
  cases h
  unfold Expr.read at hread'
  split at hread'
  · cases hread'
  · obtain ⟨ts, hts, h⟩ := bind_eq_ok.mp hread'
    obtain ⟨out, hout, h⟩ := bind_eq_ok.mp h
    have hin := leafIn_of_tokenize hread hts
    have hall : ∀ t ∈ out, t.LeafIn IsWritable K :=
      Yard.All.run (y := {}) (by simp [Yard.All]) hin hout
    exact (leavesIn_of_reducePostfix hall h).simplify hK

theorem leavesIn_of_parseEquation (hread : ReadsIn K) (hK : Expr.Stable K)
    (h : parseEquation text = .ok e) : e.LeavesIn IsWritable K := by
  unfold parseEquation at h
  split at h
  · cases h
  · split at h
    · exact leavesIn_of_parse hread hK h
    · cases h

end

end SlopeField
