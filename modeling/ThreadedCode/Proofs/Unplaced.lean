import ThreadedCode.Proofs.Parallel

/-!
# What places and documentation do not decide

Where a token stands shows only in the places of what is noted and reported about it, and what the
first comment says only in the doc text. `unplaced` forgets the places. Bodies whose tokens are the
same without them are alike if the places in both are those of the same tokens (`relocated`).
-/

namespace ThreadedCode

def Token.unplaced (token : Token) : Token :=
  { token with line := none, column := none }

def Diagnostic.unplaced (diagnostic : Diagnostic) : Diagnostic :=
  { diagnostic with site := { diagnostic.site with line := none, column := none } }

def PendingReference.unplaced (reference : PendingReference) : PendingReference :=
  { reference with line := none, column := none }

def Diagnostic.spot (diagnostic : Diagnostic) : Spot :=
  diagnostic.site.spot

namespace Compiler

/-- Two places are those of one token in two texts. -/
def Draft.Moved (shifts : List (Token × Token)) (here there : Spot) : Prop :=
  ∃ shift ∈ shifts, here = shift.1.spot ∧ there = shift.2.spot

/-- The same tokens in two texts, with different comments between them. -/
def Likeness.relocated (shifts : List (Token × Token)) : Likeness where
  spots := Draft.Moved shifts
  file := id
  unfiled := unfiled_id
  documented := False

namespace Likeness

variable {shifts : List (Token × Token)}

theorem tokens_relocated {tokens moved : List Token}
    (alike : moved.map Token.unplaced = tokens.map Token.unplaced)
    (shifted : tokens.zip moved ⊆ shifts) :
    List.Forall₂ (relocated shifts).Tokens tokens moved := by
  induction tokens generalizing moved with
  | nil =>
    obtain rfl := List.map_eq_nil_iff.mp alike
    exact .nil
  | cons token rest ih =>
    obtain ⟨other, later, rfl, here, alike⟩ := List.map_eq_cons_iff.mp alike
    obtain ⟨shift, shifted⟩ := List.cons_subset.mp shifted
    have kind : other.kind = token.kind := (congrArg Token.kind here :)
    have lexeme : other.lexeme = token.lexeme := (congrArg Token.lexeme here :)
    exact .cons ⟨kind, lexeme, _, shift, rfl, rfl⟩ (ih alike shifted)

theorem Reports.unplaced {report other : Diagnostic}
    (reports : (relocated shifts).Reports report other) : other.unplaced = report.unplaced := by
  obtain ⟨problem, word, -, filename⟩ := reports
  have filename : other.site.filename = report.site.filename := filename
  simp [Diagnostic.unplaced, problem, word, filename]

theorem Pendings.unplaced {reference other : PendingReference}
    (pendings : (relocated shifts).Pendings reference other) :
    other.unplaced = reference.unplaced := by
  simp [PendingReference.unplaced, pendings.word, pendings.position, pendings.name]

theorem map_eq_map_of_forall₂ {α β : Type} {R : α → α → Prop} {f : α → β} {xs ys : List α}
    (related : List.Forall₂ R xs ys) (same : ∀ x y, R x y → f y = f x) : ys.map f = xs.map f := by
  induction related with
  | nil => rfl
  | cons here _ ih => rw [List.map_cons, List.map_cons, same _ _ here, ih]

theorem Drafts.unplaced_reports {draft other : Draft}
    (drafts : (relocated shifts).Drafts draft other) :
    other.diagnostics.map Diagnostic.unplaced = draft.diagnostics.map Diagnostic.unplaced := by
  rw [← Array.toList_inj, Array.toList_map, Array.toList_map]
  exact map_eq_map_of_forall₂ drafts.reports fun _ _ => Reports.unplaced

theorem Drafts.moved_reports {draft other : Draft}
    (drafts : (relocated shifts).Drafts draft other) :
    List.Forall₂ (Draft.Moved shifts) (draft.diagnostics.toList.map Diagnostic.spot)
      (other.diagnostics.toList.map Diagnostic.spot) := by
  rw [List.forall₂_map_left_iff, List.forall₂_map_right_iff]
  exact drafts.reports.imp fun _ _ reports => reports.site.spot

end Likeness

end Compiler

end ThreadedCode
