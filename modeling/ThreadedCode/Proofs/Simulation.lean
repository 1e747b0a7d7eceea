import Mathlib.Data.List.Forall2
import ThreadedCode.Proofs.Failures

/-!
# Two definitions side by side

What a token does is found by lookups, and where it stands only decides whether its problems can be
said. So two bodies of the same tokens go the same way in two states that look up alike, even if the
tokens stand elsewhere (`Likeness`): their drafts are like each other token by token, until a problem
can be said in one of them only (`Follows`). A whole definition then adds the same to both states.
-/

namespace ThreadedCode

/-- A line and a column, as far as they are known. -/
abbrev Spot := Option Int × Option Int

def Site.spot (site : Site) : Spot :=
  (site.line, site.column)

def Token.spot (token : Token) : Spot :=
  (token.line, token.column)

theorem Site.isWritable_congr {site other : Site} (same : other.spot = site.spot) :
    other.isWritable = site.isWritable := by
  obtain ⟨line, column⟩ := Prod.mk.inj same
  rw [isWritable, isWritable, line, column]

namespace Compiler

def Fixup.spot (note : Fixup) : Spot :=
  (note.line, note.column)

/-! ### What is compared -/

/-- How the second of two runs may differ from the first: where things stand, which file they are
in and, unless `documented`, what the doc texts are. -/
structure Likeness where
  spots : Spot → Spot → Prop
  file : Option String → Option String
  unfiled : file none = none
  documented : Prop

theorem Likeness.unfiled_id : id (none : Option String) = none :=
  rfl

/-- The problems that an effect reports. -/
def Effect.problems : Effect → List Problem
  | .emit block => block.problems
  | _ => []

/-- Whether an effect changes nothing but the doc text. -/
def Effect.IsCommentary (effect : Effect) : Prop :=
  effect = .nothing ∨ ∃ text, effect = .document text

namespace Likeness

structure Sites (like : Likeness) (site other : Site) : Prop where
  word : other.word = site.word
  spot : like.spots site.spot other.spot
  filename : other.filename = like.file site.filename

structure Reports (like : Likeness) (report other : Diagnostic) : Prop where
  problem : other.problem = report.problem
  site : like.Sites report.site other.site

structure Notes (like : Likeness) (note other : Fixup) : Prop where
  position : other.position = note.position
  name : other.name = note.name
  spot : like.spots note.spot other.spot

structure Tokens (like : Likeness) (token other : Token) : Prop where
  kind : other.kind = token.kind
  lexeme : other.lexeme = token.lexeme
  spot : like.spots token.spot other.spot

inductive Effects (like : Likeness) : Effect → Effect → Prop where
  | same (effect : Effect) : Effects like effect effect
  | commentary {effect other : Effect} (free : ¬ like.documented) (first : effect.IsCommentary)
      (second : other.IsCommentary) : Effects like effect other

inductive Failures (like : Likeness) : Failure → Failure → Prop where
  | raised {report other : Diagnostic} (reports : like.Reports report other) :
      Failures like (.ofDiagnostic report) (.ofDiagnostic other)
  | unsited {failure : Failure} (unsited : ∀ report, failure ≠ .fault report) :
      Failures like failure failure

structure Drafts (like : Likeness) (draft other : Draft) : Prop where
  word : other.word = draft.word
  index : other.index = draft.index
  filename : other.filename = like.file draft.filename
  code : other.code = draft.code
  flags : other.flags = draft.flags
  labels : other.labels = draft.labels
  labelUses : List.Forall₂ like.Notes draft.labelUses.toList other.labelUses.toList
  references : List.Forall₂ like.Notes draft.references.toList other.references.toList
  depth : other.commentDepth = draft.commentDepth
  hint : other.hint = draft.hint
  lastWord : other.lastWord = draft.lastWord
  reports : List.Forall₂ like.Reports draft.diagnostics.toList other.diagnostics.toList
  doc : like.documented → other.doc = draft.doc
  done : like.documented → other.firstCommentDone = draft.firstCommentDone

end Likeness

namespace State

/-- Two states look up alike, so tokens have the same effects in both. -/
structure SeesAlike (state other : State) : Prop where
  words : other.findWord? = state.findWord?
  constants : other.findConstant? = state.findConstant?
  slots : other.slots = state.slots
  bootstrap : other.bootstrap = state.bootstrap
  names : other.names = state.names
  encode : other.encode = state.encode

theorem SeesAlike.refl (state : State) : SeesAlike state state :=
  ⟨rfl, rfl, rfl, rfl, rfl, rfl⟩
end State

/-! ### Effects -/

theorem Draft.diagnostics_apply (draft : Draft) (token : Token) (effect : Effect) :
    (draft.apply token effect).diagnostics =
      draft.diagnostics ++ (effect.problems.map (Diagnostic.mk · (draft.site token))).toArray := by
  cases effect with
  | emit block => rw [apply, emit_eq, Effect.problems]
  | _ => simp [apply, Effect.problems]

/-- An effect at a site, where its problems have to be said. -/
def Effect.said (effect : Effect) (site : Site) : Except Failure Effect :=
  if effect.problems.isEmpty || site.isWritable then .ok effect else .error (.tooManyDigits {})

namespace Likeness

variable {like : Likeness} {state twin : State} {draft other : Draft} {token moved : Token}

/-- What is found for a token in the two runs: like effects, each if it can be said, or failures. -/
inductive Answers (like : Likeness) (site elsewhere : Site) :
    Except Failure Effect → Except Failure Effect → Prop where
  | found {effect changed : Effect} (effects : like.Effects effect changed) :
      Answers like site elsewhere (effect.said site) (changed.said elsewhere)
  | failed {failure reason : Failure} (failures : like.Failures failure reason) :
      Answers like site elsewhere (.error failure) (.error reason)

theorem Drafts.site (drafts : like.Drafts draft other) (tokens : like.Tokens token moved) :
    like.Sites (draft.site token) (other.site moved) :=
  ⟨congrArg some drafts.word, tokens.spot, drafts.filename⟩

theorem plainBlock_congr (sees : State.SeesAlike state twin) :
    plainBlock twin = plainBlock state := by
  funext lastWord lexeme
  rw [plainBlock, plainBlock, sees.words, sees.bootstrap]

theorem variableBlock_congr (sees : State.SeesAlike state twin) :
    variableBlock twin = variableBlock state := by
  funext slot
  unfold variableBlock
  rw [sees.words, sees.bootstrap, sees.names]

theorem plainEffect?_answers (sees : State.SeesAlike state twin) (drafts : like.Drafts draft other)
    (tokens : like.Tokens token moved) :
    like.Answers (draft.site token) (other.site moved) (Draft.plainEffect? state draft token)
      (Draft.plainEffect? twin other moved) := by
  unfold Draft.plainEffect?
  rw [plainBlock_congr sees, drafts.lastWord, tokens.lexeme]
  cases resolved : plainBlock state draft.lastWord token.lexeme with
  | error failure =>
    obtain ⟨-, limit, rfl⟩ := plainBlock_error resolved
    exact .failed (.unsited (by simp))
  | ok block => exact .found (.same (.emit block))

theorem codeEffect?_answers (sees : State.SeesAlike state twin) (drafts : like.Drafts draft other)
    (tokens : like.Tokens token moved) :
    like.Answers (draft.site token) (other.site moved) (Draft.codeEffect? state draft token)
      (Draft.codeEffect? twin other moved) := by
  unfold Draft.codeEffect?
  rw [tokens.kind]
  cases token.kind with
  | commentOpen => exact .found (.same .openComment)
  | flag mask =>
    cases mask with
    | none => exact .failed (.unsited (by simp))
    | some mask => exact .found (.same (.setFlags (.ofMask mask)))
  | recurse =>
    rw [drafts.index]
    exact .found (.same (.emit (.ofWord draft.index)))
  | reference name =>
    have same : Draft.referenceEffect twin other name = Draft.referenceEffect state draft name := by
      rw [Draft.referenceEffect, Draft.referenceEffect, sees.constants, drafts.hint, drafts.index]
    have silent : (Draft.referenceEffect state draft name).problems = [] := by
      unfold Draft.referenceEffect
      repeat' split
      all_goals rfl
    have answers : like.Answers (draft.site token) (other.site moved) _ _ :=
      .found (.same (Draft.referenceEffect state draft name))
    dsimp only
    rw [same]
    simpa [Effect.said, silent] using answers
  | variableRef name =>
    dsimp only
    rw [sees.slots, variableBlock_congr sees]
    split
    · exact .found (.same (.emit _))
    · exact plainEffect?_answers sees drafts tokens
  | labelDef name => exact .found (.same (.defineLabel name))
  | labelUse name => exact .found (.same (.useLabel name))
  | stringLiteral text =>
    dsimp only
    unfold stringBlock
    rw [sees.encode, sees.bootstrap, sees.names]
    cases state.encode text with
    | none => exact .failed (.unsited (by simp))
    | some bytes =>
      dsimp only
      cases Code.pack bytes with
      | error problem => exact .failed (.raised ⟨rfl, drafts.site tokens⟩)
      | ok units => exact .found (.same (.emit _))
  | word | commentClose => exact plainEffect?_answers sees drafts tokens
  | stringIntro => exact .failed (.unsited (by simp))
  | unknown =>
    -- This failure names no file.
    have sites := drafts.site tokens
    exact .failed (.raised ⟨rfl, sites.word, sites.spot, like.unfiled.symm⟩)

theorem commentEffect_effects (drafts : like.Drafts draft other) (tokens : like.Tokens token moved) :
    like.Effects (draft.commentEffect token) (other.commentEffect moved) := by
  have hints : moved.hint? = token.hint? := by rw [Token.hint?, Token.hint?, tokens.lexeme]
  unfold Draft.commentEffect
  rw [tokens.kind, hints, tokens.lexeme, drafts.depth]
  cases token.kind
  case commentOpen | commentClose => exact .same _
  all_goals
    cases token.hint? with
    | some constant => exact .same _
    | none =>
      by_cases compared : like.documented
      · rw [drafts.done compared]
        exact .same _
      · refine .commentary compared ?_ ?_
        all_goals
          dsimp only
          split
          · exact .inr ⟨token.lexeme, rfl⟩
          · exact .inl rfl

/-- A token has like effects in two states that look up alike. -/
theorem effect?_answers (sees : State.SeesAlike state twin) (drafts : like.Drafts draft other)
    (tokens : like.Tokens token moved) :
    like.Answers (draft.site token) (other.site moved) (Draft.effect? state draft token)
      (Draft.effect? twin other moved) := by
  unfold Draft.effect?
  rw [drafts.depth]
  split
  · have silent (draft : Draft) (token : Token) : (draft.commentEffect token).problems = [] := by
      have cases := Draft.commentEffect_cases draft token
      generalize draft.commentEffect token = effect at cases
      cases cases <;> rfl
    have answers : like.Answers (draft.site token) (other.site moved) _ _ :=
      .found (commentEffect_effects drafts tokens)
    simpa [Effect.said, silent] using answers
  · exact codeEffect?_answers sees drafts tokens

theorem Effects.problems {effect changed : Effect} (effects : like.Effects effect changed) :
    changed.problems = effect.problems := by
  cases effects with
  | same => rfl
  | commentary free first second =>
    obtain rfl | ⟨text, rfl⟩ := first <;> obtain rfl | ⟨other, rfl⟩ := second <;> rfl

theorem forall₂_push {α : Type} {R : α → α → Prop} {xs ys : Array α} {x y : α}
    (before : List.Forall₂ R xs.toList ys.toList) (last : R x y) :
    List.Forall₂ R (xs.push x).toList (ys.push y).toList := by
  rw [Array.toList_push, Array.toList_push]
  exact List.rel_append before (.cons last .nil)

theorem Drafts.fixup (drafts : like.Drafts draft other) (tokens : like.Tokens token moved)
    (name : Option String) : like.Notes (draft.fixup token name) (other.fixup moved name) :=
  ⟨congrArg Code.Buffer.offset drafts.code, rfl, tokens.spot⟩

/-- Like effects keep drafts like each other. -/
theorem Drafts.apply {effect changed : Effect} (drafts : like.Drafts draft other)
    (tokens : like.Tokens token moved) (effects : like.Effects effect changed) :
    like.Drafts (draft.apply token effect) (other.apply moved changed) := by
  have reports : List.Forall₂ like.Reports (draft.apply token effect).diagnostics.toList
      (other.apply moved changed).diagnostics.toList := by
    rw [Draft.diagnostics_apply, Draft.diagnostics_apply, Array.toList_append, Array.toList_append,
      effects.problems]
    refine List.rel_append drafts.reports ?_
    rw [List.forall₂_map_left_iff, List.forall₂_map_right_iff, List.forall₂_same]
    exact fun problem _ => ⟨rfl, drafts.site tokens⟩
  cases effects with
  | commentary free first second =>
    have silent : ∀ {effect : Effect}, effect.IsCommentary → ∀ (draft : Draft) (token : Token),
        ∃ doc, draft.apply token effect = { draft with doc := doc } := by
      rintro effect (rfl | ⟨text, rfl⟩) draft token
      · exact ⟨draft.doc, rfl⟩
      · exact ⟨draft.doc.push text, rfl⟩
    obtain ⟨doc, left⟩ := silent first draft token
    obtain ⟨doc', right⟩ := silent second other moved
    rw [left, right]
    exact { drafts with
      doc := fun compared => absurd compared free
      done := fun compared => absurd compared free }
  | same =>
    cases effect with
    | openComment =>
      exact { drafts with depth := congrArg (· + 1) drafts.depth }
    | closeComment =>
      refine { drafts with
        depth := congrArg (· - 1) drafts.depth
        done := fun compared => ?_ }
      show (_ || other.commentDepth == 1) = (_ || draft.commentDepth == 1)
      rw [drafts.done compared, drafts.depth]
    | nameConstant name => exact { drafts with hint := rfl }
    | document text =>
      exact { drafts with doc := fun compared => congrArg (·.push text) (drafts.doc compared) }
    | nothing => exact drafts
    | setFlags flags => exact { drafts with flags := congrArg (·.union flags) drafts.flags }
    | defineLabel name =>
      refine { drafts with labels := ?_ }
      show (name, other.code.offset) :: other.labels = (name, draft.code.offset) :: draft.labels
      rw [drafts.labels, drafts.code]
    | useLabel name =>
      exact { drafts with
        labelUses := forall₂_push drafts.labelUses (drafts.fixup tokens name)
        code := congrArg Code.Buffer.emitPlaceholder drafts.code
        lastWord := rfl }
    | awaitConstant name =>
      exact { drafts with
        references := forall₂_push drafts.references (drafts.fixup tokens name)
        code := congrArg Code.Buffer.emitPlaceholder drafts.code
        lastWord := rfl }
    | emit block =>
      rw [Draft.apply, Draft.apply, Draft.emit_eq, Draft.emit_eq] at reports ⊢
      exact { drafts with
        code := congrArg (·.emitAll block.values) drafts.code
        lastWord := rfl
        reports := reports }

end Likeness

/-! ### Steps -/

namespace Draft

/-- All that a draft reports has places that can be written. -/
def IsWritable (draft : Draft) : Prop :=
  ∀ report ∈ draft.diagnostics, report.site.isWritable = true

theorem newDraft_isWritable (state : State) (name : String) : (state.newDraft name).IsWritable := by
  simp [IsWritable, State.newDraft]

theorem IsWritable.of_prefix {draft earlier : Draft} (writable : draft.IsWritable)
    (kept : earlier.diagnostics.toList <+: draft.diagnostics.toList) : earlier.IsWritable :=
  fun report member => writable report
    (Array.mem_toList_iff.mp (kept.subset (Array.mem_toList_iff.mpr member)))

/-- A body is compiled by steps on its draft, one for each token and then one for each use of a
label, up to the first that fails. -/
def advance {α : Type} (step : Draft → α → Except Failure Draft) (draft : Draft) :
    List α → Draft × Option Failure
  | [] => (draft, none)
  | x :: rest =>
    match step draft x with
    | .error failure => (draft, some failure)
    | .ok next => advance step next rest

def takeToken (state : State) (draft : Draft) (token : Token) : Except Failure Draft :=
  (effect? state draft token).map (draft.apply token)

theorem addTokens_eq (state : State) (draft : Draft) (tokens : List Token) :
    addTokens state draft tokens = advance (takeToken state) draft tokens := by
  induction tokens generalizing draft with
  | nil => rfl
  | cons token rest ih =>
    rw [addTokens, advance, takeToken]
    cases effect? state draft token with
    | error failure => rfl
    | ok effect => exact ih _

def takeLabel (draft : Draft) (note : Fixup) : Except Failure Draft :=
  (draft.patchLabel note).mapError .tooManyDigits

theorem patchLabels_eq (draft : Draft) (notes : List Fixup) :
    draft.patchLabels notes = advance takeLabel draft notes := by
  induction notes generalizing draft with
  | nil => rfl
  | cons note rest ih =>
    rw [patchLabels, advance, takeLabel]
    cases draft.patchLabel note with
    | error limit => rfl
    | ok next => exact ih next

/-- A draft that a step leads to, if what it reports can be said. -/
def arrive (next : Draft) (said : Bool) : Except Failure Draft :=
  if said then .ok next else .error (.tooManyDigits {})

/-- A step adds reports, and they can be written exactly if it is `said` so. -/
structure Arrives (draft next : Draft) (said : Bool) : Prop where
  kept : draft.diagnostics.toList <+: next.diagnostics.toList
  writable : draft.IsWritable → (next.IsWritable ↔ said = true)

theorem arrives_of_reports {draft next : Draft} {reports : List Diagnostic} {said : Bool}
    (diagnostics : next.diagnostics = draft.diagnostics ++ reports.toArray)
    (fresh : (∀ report ∈ reports, report.site.isWritable = true) ↔ said = true) :
    Arrives draft next said := by
  refine ⟨?_, fun before => ?_⟩
  · rw [diagnostics, Array.toList_append]
    exact List.prefix_append _ _
  · rw [← fresh]
    have old : ∀ report ∈ draft.diagnostics, report.site.isWritable = true := before
    simpa [IsWritable, diagnostics, or_imp, forall_and] using fun _ => old

/-- A result is reached if all that its draft reports can be written, and else something stops short
of it. -/
structure Reaches (result final : Draft × Option Failure) : Prop where
  whole : final.1.IsWritable → result = final
  stopped : ¬ final.1.IsWritable → result.2 = some (.tooManyDigits {})

theorem Reaches.short {next : Draft} {final : Draft × Option Failure} (unsaid : ¬ next.IsWritable)
    (kept : next.diagnostics.toList <+: final.1.diagnostics.toList) (draft : Draft) :
    Reaches (draft, some (.tooManyDigits {})) final :=
  ⟨fun writable => absurd (writable.of_prefix kept) unsaid, fun _ => rfl⟩

theorem Reaches.of_done {draft : Draft} {final : Draft × Option Failure}
    (reaches : Reaches (draft, none) final) : final = (draft, none) := by
  by_cases writable : final.1.IsWritable
  · exact (reaches.whole writable).symm
  · cases reaches.stopped writable

end Draft

namespace Likeness

variable {like : Likeness} {state twin : State} {draft other : Draft} {α : Type}

/-- One step in the two runs. -/
inductive Steps (like : Likeness) (draft other : Draft) :
    Except Failure Draft → Except Failure Draft → Prop where
  | arrived {next after : Draft} {said elsewhere : Bool} (drafts : like.Drafts next after)
      (first : draft.Arrives next said) (second : other.Arrives after elsewhere) :
      Steps like draft other (next.arrive said) (after.arrive elsewhere)
  | failed {failure reason : Failure} (failures : like.Failures failure reason) :
      Steps like draft other (.error failure) (.error reason)

/-- What can be written of the second run can not always be written of the first. -/
def Uneven (like : Likeness) : Prop :=
  ∃ site other, like.Sites site other ∧ site.isWritable = false ∧ other.isWritable = true

/-- The second run goes like the first: it reaches a like draft and fails for a like reason, unless
one of the two is stopped by a problem that cannot be said. -/
structure Follows (like : Likeness) (draft other : Draft) (first second : Draft × Option Failure) :
    Prop where
  writable : draft.IsWritable → first.1.IsWritable
  goesOn : draft.IsWritable → (like.Uneven ∧ first.2 = some (.tooManyDigits {})) ∨
    ∃ reached, like.Drafts first.1 reached.1 ∧ Option.Rel like.Failures first.2 reached.2 ∧
      other.diagnostics.toList <+: reached.1.diagnostics.toList ∧
      (other.IsWritable → Draft.Reaches second reached)

/-- Where the first run goes to its end, the second reaches a like draft. -/
theorem Follows.of_done {final : Draft} {second : Draft × Option Failure}
    (follows : like.Follows draft other (final, none) second) (before : draft.IsWritable)
    (writable : other.IsWritable) :
    ∃ reached, like.Drafts final reached ∧ Draft.Reaches second (reached, none) := by
  obtain ⟨-, stopped⟩ | ⟨⟨reached, reason⟩, finals, failures, -, reaches⟩ := follows.goesOn before
  · cases stopped
  · cases failures
    exact ⟨reached, finals, reaches writable⟩

/-- Where things stand in the same places, the same can be written of both runs. -/
theorem not_uneven (fixed : ∀ here there, like.spots here there → there = here) :
    ¬ like.Uneven := by
  rintro ⟨site, other, ⟨-, spot, -⟩, unsaid, said⟩
  rw [Site.isWritable_congr (fixed _ _ spot), unsaid] at said
  cases said

theorem exists_of_forall₂ {β γ : Type} {R : β → γ → Prop} {xs : List β} {ys : List γ}
    (related : List.Forall₂ R xs ys) : ∀ x ∈ xs, ∃ y ∈ ys, R x y := by
  induction related with
  | nil => simp
  | cons here _ ih =>
    intro x member
    rcases List.mem_cons.mp member with rfl | later
    · exact ⟨_, List.mem_cons_self, here⟩
    · obtain ⟨y, there, related⟩ := ih x later
      exact ⟨y, List.mem_cons_of_mem _ there, related⟩

theorem uneven_of_drafts (drafts : like.Drafts draft other) (writable : other.IsWritable)
    (unsaid : ¬ draft.IsWritable) : like.Uneven := by
  obtain ⟨report, member, silent⟩ :
      ∃ report ∈ draft.diagnostics, report.site.isWritable = false := by
    simpa [Draft.IsWritable] using unsaid
  obtain ⟨said, there, reports⟩ :=
    exists_of_forall₂ drafts.reports report (Array.mem_toList_iff.mpr member)
  exact ⟨_, _, reports.site, silent, writable said (Array.mem_toList_iff.mp there)⟩

/-- The steps of the second run follow those of the first. -/
theorem advance_follows {step twin : Draft → α → Except Failure Draft} {related : α → α → Prop}
    (steps : ∀ (draft other : Draft) (x y : α), like.Drafts draft other → related x y →
      like.Steps draft other (step draft x) (twin other y))
    {xs ys : List α} (items : List.Forall₂ related xs ys) (drafts : like.Drafts draft other) :
    like.Follows draft other (Draft.advance step draft xs) (Draft.advance twin other ys) := by
  induction items generalizing draft other with
  | nil =>
    refine ⟨id, fun _ =>
      .inr ⟨(other, none), drafts, .none, List.prefix_refl _, fun writable => ?_⟩⟩
    exact ⟨fun _ => rfl, absurd writable⟩
  | @cons x y xs ys here rest ih =>
    rw [Draft.advance, Draft.advance]
    have steps := steps draft other x y drafts here
    generalize step draft x = first at steps
    generalize twin other y = second at steps
    cases steps with
    | failed failures =>
      refine ⟨id, fun _ => .inr ⟨(other, some _), drafts, .some failures, List.prefix_refl _,
        fun writable => ?_⟩⟩
      exact ⟨fun _ => rfl, absurd writable⟩
    | @arrived next after said elsewhere reached first second =>
      unfold Draft.arrive
      cases said with
      | true =>
        rw [if_pos rfl]
        obtain ⟨writable, goesOn⟩ := ih reached
        refine ⟨fun before => writable ((first.writable before).mpr rfl), fun before => ?_⟩
        refine (goesOn ((first.writable before).mpr rfl)).imp_right ?_
        rintro ⟨final, finals, failures, kept, reaches⟩
        refine ⟨final, finals, failures, second.kept.trans kept, fun writable => ?_⟩
        cases elsewhere with
        | true => exact reaches ((second.writable writable).mpr rfl)
        | false => exact .short (fun all => by cases (second.writable writable).mp all) kept other
      | false =>
        rw [if_neg Bool.false_ne_true]
        refine ⟨id, fun before => ?_⟩
        have unsaid : ¬ next.IsWritable := fun all => by cases (first.writable before).mp all
        by_cases uneven : like.Uneven
        · exact .inl ⟨uneven, rfl⟩
        · refine .inr ⟨(other, some (.tooManyDigits {})), drafts, .some (.unsited (by simp)),
            List.prefix_refl _, fun writable => ⟨fun _ => ?_, absurd writable⟩⟩
          cases elsewhere with
          | true =>
            exact absurd
              (uneven_of_drafts reached ((second.writable writable).mpr rfl) unsaid) uneven
          | false => rfl

/-! ### Bodies -/

theorem drafts_newDraft (sameFile : like.file = id) (state : State) (name : String) :
    like.Drafts (state.newDraft name) (state.newDraft name) where
  word := rfl
  index := rfl
  filename := by rw [sameFile, id]
  code := rfl
  flags := rfl
  labels := rfl
  labelUses := .nil
  references := .nil
  depth := rfl
  hint := rfl
  lastWord := rfl
  reports := .nil
  doc _ := rfl
  done _ := rfl

theorem takeToken_steps {token moved : Token} (sees : State.SeesAlike state twin)
    (drafts : like.Drafts draft other) (tokens : like.Tokens token moved) :
    like.Steps draft other (draft.takeToken state token) (other.takeToken twin moved) := by
  have arrives : ∀ (draft : Draft) (token : Token) (effect : Effect),
      (effect.said (draft.site token)).map (draft.apply token) =
        (draft.apply token effect).arrive
          (effect.problems.isEmpty || (draft.site token).isWritable) ∧
      draft.Arrives (draft.apply token effect)
        (effect.problems.isEmpty || (draft.site token).isWritable) := by
    intro draft token effect
    refine ⟨?_, Draft.arrives_of_reports (Draft.diagnostics_apply draft token effect) ?_⟩
    · unfold Effect.said Draft.arrive
      split <;> rfl
    · cases effect.problems with
      | nil => simp
      | cons problem rest => simpa using fun said _ _ => said
  have answers := effect?_answers sees drafts tokens
  unfold Draft.takeToken
  generalize Draft.effect? state draft token = first at answers
  generalize Draft.effect? twin other moved = second at answers
  cases answers with
  | failed failures => exact .failed failures
  | @found effect changed effects =>
    rw [(arrives draft token effect).1, (arrives other moved changed).1]
    exact .arrived (drafts.apply tokens effects) (arrives draft token effect).2
      (arrives other moved changed).2

end Likeness

namespace Draft

/-- The draft with a label filled in and the problem with it recorded. -/
def patched (draft : Draft) (note : Fixup) : Draft :=
  { draft with
    code := draft.code.put note.position (draft.labelOffset note).1
    diagnostics := draft.diagnostics ++ (draft.labelReport? note).toList.toArray }

theorem patchLabel_eq (draft : Draft) (note : Fixup) :
    draft.patchLabel note =
      if (draft.labelReport? note).all (·.site.isWritable) then .ok (draft.patched note)
      else .error {} := by
  unfold patchLabel patched labelReport?
  rcases draft.labelOffset note with ⟨offset, problem⟩
  cases problem with
  | none => simp
  | some problem => simp [report]

theorem takeLabel_eq (draft : Draft) (note : Fixup) :
    draft.takeLabel note =
      (draft.patched note).arrive ((draft.labelReport? note).all (·.site.isWritable)) := by
  rw [takeLabel, patchLabel_eq, arrive]
  split <;> rfl

theorem patched_arrives (draft : Draft) (note : Fixup) :
    draft.Arrives (draft.patched note) ((draft.labelReport? note).all (·.site.isWritable)) := by
  refine arrives_of_reports rfl ?_
  cases draft.labelReport? note <;> simp

end Draft

namespace Likeness

variable {like : Likeness} {state twin : State} {draft other : Draft}

theorem Drafts.patched {note moved : Fixup} (drafts : like.Drafts draft other)
    (notes : like.Notes note moved) : like.Drafts (draft.patched note) (other.patched moved) := by
  have offset : other.labelOffset moved = draft.labelOffset note := by
    rw [Draft.labelOffset, Draft.labelOffset, drafts.labels, notes.name, notes.position]
  have reports : List.Forall₂ like.Reports (draft.labelReport? note).toList
      (other.labelReport? moved).toList := by
    rw [Draft.labelReport?, Draft.labelReport?, offset]
    cases (draft.labelOffset note).2 with
    | none => exact .nil
    | some problem =>
      exact .cons ⟨rfl, congrArg some drafts.word, notes.spot, drafts.filename⟩ .nil
  refine { drafts with code := ?_, reports := ?_ }
  · show other.code.put moved.position _ = draft.code.put note.position _
    rw [drafts.code, notes.position, offset]
  · show List.Forall₂ like.Reports (draft.diagnostics ++ _).toList (other.diagnostics ++ _).toList
    rw [Array.toList_append, Array.toList_append]
    exact List.rel_append drafts.reports reports

theorem takeLabel_steps {note moved : Fixup} (drafts : like.Drafts draft other)
    (notes : like.Notes note moved) :
    like.Steps draft other (draft.takeLabel note) (other.takeLabel moved) := by
  rw [Draft.takeLabel_eq, Draft.takeLabel_eq]
  exact .arrived (drafts.patched notes) (draft.patched_arrives note) (other.patched_arrives moved)

theorem addTokens_follows {tokens others : List Token} (sees : State.SeesAlike state twin)
    (drafts : like.Drafts draft other) (alike : List.Forall₂ like.Tokens tokens others) :
    like.Follows draft other (Draft.addTokens state draft tokens)
      (Draft.addTokens twin other others) := by
  rw [Draft.addTokens_eq, Draft.addTokens_eq]
  refine advance_follows ?_ alike drafts
  exact fun _ _ _ _ => takeToken_steps sees

theorem patchLabels_follows {notes others : List Fixup} (drafts : like.Drafts draft other)
    (alike : List.Forall₂ like.Notes notes others) :
    like.Follows draft other (draft.patchLabels notes) (other.patchLabels others) := by
  rw [Draft.patchLabels_eq, Draft.patchLabels_eq]
  refine advance_follows ?_ alike drafts
  exact fun _ _ _ _ => takeLabel_steps

/-- Bodies of the same tokens go the same way in states that look up alike. -/
theorem addBody_follows {tokens others : List Token} (sees : State.SeesAlike state twin)
    (drafts : like.Drafts draft other) (alike : List.Forall₂ like.Tokens tokens others) :
    like.Follows draft other (Draft.addBody state draft tokens)
      (Draft.addBody twin other others) := by
  obtain ⟨said, goesOn⟩ := addTokens_follows sees drafts alike
  unfold Draft.addBody
  generalize Draft.addTokens state draft tokens = first at said goesOn
  generalize Draft.addTokens twin other others = second at goesOn
  obtain ⟨middle, _ | failure⟩ := first
  · have labels : ∀ {reached : Draft}, like.Drafts middle reached →
        like.Follows middle reached (middle.patchLabels middle.labelUses.toList)
          (reached.patchLabels reached.labelUses.toList) :=
      fun drafts => patchLabels_follows drafts drafts.labelUses
    refine ⟨fun before => ?_, fun before => ?_⟩
    · obtain ⟨-, stopped⟩ | ⟨reached, finals, -⟩ := goesOn before
      · cases stopped
      · exact (labels finals).writable (said before)
    · obtain ⟨-, stopped⟩ | ⟨⟨reached, reason⟩, finals, failures, kept, reaches⟩ := goesOn before
      · cases stopped
      cases failures
      refine ((labels finals).goesOn (said before)).imp_right ?_
      rintro ⟨final, others, failures, grown, filled⟩
      refine ⟨final, others, failures, kept.trans grown, fun writable => ?_⟩
      obtain ⟨whole, stopped⟩ := reaches writable
      by_cases all : reached.IsWritable
      · rw [whole all]
        exact filled all
      · obtain ⟨stuck, failure⟩ := second
        obtain rfl := stopped all
        exact .short all grown stuck
  · refine ⟨said, fun before => (goesOn before).imp_right ?_⟩
    rintro ⟨⟨reached, reason⟩, finals, failures, kept, reaches⟩
    cases failures with
    | some failures =>
      refine ⟨(reached, some _), finals, .some failures, kept, fun writable => ?_⟩
      obtain ⟨whole, stopped⟩ := reaches writable
      refine ⟨fun all => by rw [whole all], fun unsaid => ?_⟩
      obtain ⟨stuck, failure⟩ := second
      obtain rfl := stopped unsaid
      rfl

end Likeness

end Compiler

end ThreadedCode
