import ThreadedCode.CommandLine.Run
import ThreadedCode.Proofs.WellFormed

/-!
# How a command ends

A command reads and compiles its source before it writes anything, so a source that cannot be read
or compiled leaves all files as they are. A file that is not there and a fault in the source are
reported and end the command with status 1. Everything else that goes wrong, be it with the bytes of
the source, its numbers or the files that are written, escapes (`run_outcome`).
-/

namespace ThreadedCode

/-! ### Writing a file twice -/

namespace FileStore

variable {store : FileStore} {place : List String} {path : String}

/-- The store with a file at a place. -/
def holding (store : FileStore) (place : List String) (content : List UInt8) : FileStore :=
  { store with nodes := (place, .file content) :: store.nodes.filter fun node => node.1 ≠ place }

theorem write_eq_ok_iff {content : List UInt8} {next : FileStore} :
    store.write path content = .ok next ↔
      ∃ place, store.locateTarget path = .ok place ∧ store.find? place ≠ some .directory ∧
        next = store.holding place content := by
  unfold write
  cases located : store.locateTarget path with
  | error reason => simp [bind, Except.bind]
  | ok place =>
    cases found : store.find? place with
    | none => simp [bind, Except.bind, found, pure, Except.pure, holding, eq_comm]
    | some node =>
      cases node with
      | file old => simp [bind, Except.bind, found, pure, Except.pure, holding, eq_comm]
      | directory => simp [bind, Except.bind, found, throw, throwThe, MonadExceptOf.throw]

theorem find?_holding_ne {other : List String} (content : List UInt8) (differs : other ≠ place) :
    (store.holding place content).find? other = store.find? other := by
  have kept : (store.nodes.filter fun node => node.1 ≠ place).lookup other =
      store.nodes.lookup other := by
    induction store.nodes with
    | nil => rfl
    | cons node nodes ih =>
      by_cases same : node.1 = place
      · have skipped : (other == node.1) = false := by simpa [same] using differs
        rw [List.filter_cons_of_neg (by simpa using same), ih, List.lookup_cons, skipped]
      · rw [List.filter_cons_of_pos (by simpa using same), List.lookup_cons, List.lookup_cons, ih]
  have first : (other == place) = false := by simpa using differs
  unfold find? holding
  rw [List.lookup_cons, first, kept]

theorem find?_holding_self (content : List UInt8) (free : store.find? place ≠ some .directory) :
    (store.holding place content).find? place = some (.file content) := by
  have beside : ¬ place.isPrefixOf store.current = true := by
    intro above
    exact free (by rw [find?, if_pos above])
  unfold find? holding
  rw [if_neg beside, List.lookup_cons_self]

theorem follow_holding {origin target : List String} {name : String} (content : List UInt8)
    (free : store.find? place ≠ some .directory) (followed : store.follow origin name = .ok target) :
    (store.holding place content).follow origin name = .ok target := by
  have entered : store.find? origin = some .directory := by
    unfold follow at followed
    split at followed
    · cases followed
    · cases followed
    · assumption
  -- Only directories are passed on the way, and the new file does not take the place of one.
  have differs : origin ≠ place := by
    intro same
    exact free (same ▸ entered)
  unfold follow at followed ⊢
  rw [find?_holding_ne content differs]
  exact followed

theorem foldlM_follow_holding {names : List String} {origin target : List String}
    (content : List UInt8) (free : store.find? place ≠ some .directory)
    (followed : names.foldlM store.follow origin = .ok target) :
    names.foldlM (store.holding place content).follow origin = .ok target := by
  induction names generalizing origin with
  | nil => exact followed
  | cons name names ih =>
    rw [List.foldlM_cons] at followed ⊢
    cases step : store.follow origin name with
    | error reason => simp [step, bind, Except.bind] at followed
    | ok next =>
      rw [step] at followed
      rw [follow_holding content free step]
      exact ih followed

theorem locateTarget_holding (content : List UInt8) (free : store.find? place ≠ some .directory)
    {target : List String} (located : store.locateTarget path = .ok target) :
    (store.holding place content).locateTarget path = .ok target := by
  unfold locateTarget at located ⊢
  cases checked : checkPath path with
  | error reason => simp [checked, bind, Except.bind] at located
  | ok _ =>
    rw [checked] at located
    by_cases slash : (names path).getLast? = some ""
    · simp only [slash, if_true, bind, Except.bind] at located
      repeat' split at located
      all_goals cases located
    · simp only [slash, if_false, bind, Except.bind] at located ⊢
      exact foldlM_follow_holding content free located

/-- A file that has been written can be written again, and then holds what is written last. -/
theorem write_write {first : List UInt8} {middle : FileStore}
    (written : store.write path first = .ok middle) (second : List UInt8) :
    ∃ final, store.write path second = .ok final ∧ middle.write path second = .ok final := by
  obtain ⟨place, located, free, rfl⟩ := write_eq_ok_iff.mp written
  refine ⟨store.holding place second, write_eq_ok_iff.mpr ⟨place, located, free, rfl⟩, ?_⟩
  refine write_eq_ok_iff.mpr ⟨place, locateTarget_holding first free located, ?_, ?_⟩
  · rw [find?_holding_self first free]
    simp
  · simp [holding]

theorem write_eq_error {first : List UInt8} {reason : FileError}
    (refused : store.write path first = .error reason) (second : List UInt8) :
    store.write path second = .error reason := by
  unfold write at refused ⊢
  cases located : store.locateTarget path with
  | error problem =>
    rw [located] at refused
    exact refused
  | ok place =>
    rw [located] at refused
    simp only [bind, Except.bind] at refused ⊢
    split at refused
    · exact refused
    · cases refused

end FileStore

/-! ### Sources -/

namespace CommandLine

open Build (isPossiblePath)

/-- The text of a source file in a store. -/
def sourceText (store : FileStore) (path : String) : Except Build.Error String :=
  if isPossiblePath path then
    match store.read path with
    | .error reason => .error (.file reason)
    | .ok bytes =>
      match Text.ofUtf8? bytes with
      | none => .error .invalidText
      | some text => .ok (Text.unifyNewlines text)
  else .error .impossiblePath

/-- What a source file in a store is built to. -/
def buildOf (store : FileStore) (order : Order) (path : String) : Except Build.Error Build :=
  match sourceText store path with
  | .error reason => .error reason
  | .ok text =>
    match (Compilation.ofText text (some path) order).outcome with
    | .error failure => .error (.compile failure)
    | .ok compilation => .ok { source := text, filename := some path, compilation }

theorem run_bind {α β : Type} {action : StateM FileStore α} {store next : FileStore} {result : α}
    (ran : action.run store = (result, next)) (rest : α → StateM FileStore β) :
    (action >>= rest).run store = (rest result).run next := by
  rw [StateT.run_bind, ran]
  rfl

theorem readSource_run (store : FileStore) (path : String) :
    (readSource FileStore.disk path).run store = (sourceText store path, store) := by
  have file : (Build.readFile FileStore.disk path).run store =
      (if isPossiblePath path then (store.read path).mapError .file else .error .impossiblePath,
        store) := by
    unfold Build.readFile
    cases isPossiblePath path <;> rfl
  unfold readSource sourceText
  rw [run_bind file]
  cases isPossiblePath path with
  | false => rfl
  | true =>
    cases store.read path with
    | error reason => rfl
    | ok bytes =>
      simp only [if_true, Except.mapError]
      cases Text.ofUtf8? bytes <;> rfl

theorem compileFile_run (store : FileStore) (order : Order) (path : String) :
    ∃ report, (({ order } : Settings).compileFile FileStore.disk path).run store = (report, store) ∧
      report.result = buildOf store order path := by
  unfold Settings.compileFile buildOf
  rw [run_bind (readSource_run store path)]
  cases sourceText store path with
  | error reason => exact ⟨_, rfl, rfl⟩
  | ok text =>
    refine ⟨_, rfl, ?_⟩
    unfold Settings.compile
    cases ran : (Compilation.ofText text (some path) order).outcome with
    | error failure => simp only [ran]
    | ok compilation =>
      simp only [ran]
      cases compilation.diagnostics[0]? <;> rfl

/-- The interpreter source of what a file is built to can be written, and its table be listed. -/
theorem buildOf_renders {store : FileStore} {order : Order} {path : String} {build : Build}
    (built : buildOf store order path = .ok build) :
    (∃ text, build.interpreterSource = .ok text) ∧
      ∃ text, build.compilation.table.listing = .ok text := by
  unfold buildOf at built
  split at built
  · cases built
  · split at built
    · cases built
    · rename_i compilation returned
      obtain rfl := Except.ok.inj built
      obtain ⟨start, log, final, read, started, runs, -, -, table, -⟩ :=
        Compilation.ofText_ok returned
      -- Rendering and listing fail on tables of a wrong shape only.
      have formed : compilation.table.WellFormed := by
        rw [table]
        exact Compilation.finish_wellFormed read started runs
      exact ⟨Interpreter.render_isOk formed (Source.read_complete read), formed.listing_isOk⟩

/-! ### Files that are written -/

/-- The store after a file has been written. -/
def written (store : FileStore) (path : String) (content : List UInt8) :
    Except Build.Error FileStore :=
  if isPossiblePath path then (store.write path content).mapError .file else .error .impossiblePath

/-- The store after a content has been written to the file that an option names, if it does. -/
def put (store : FileStore) (value : Option Value) (content : List UInt8) :
    Except Escape FileStore :=
  match value with
  | none => .ok store
  | some .empty => .error .emptyPath
  | some (.text path) => (written store path content).mapError .build

/-- The store after the binary form of a build has been saved, if that is asked for. -/
def putBinary (store : FileStore) (options : Options) (build : Build) : Except Escape FileStore :=
  match options.binary with
  | none => .ok store
  | some value =>
    match build.compilation.table.encode with
    | .error reason => .error (.build (.encode reason))
    | .ok bytes => put store (some value) bytes

theorem disk_write_run (store : FileStore) (path : String) (content : List UInt8) :
    (FileStore.disk.write path content).run store =
      match store.write path content with
      | .error reason => (.error reason, store)
      | .ok next => (.ok (), next) := by
  cases outcome : store.write path content with
  | error reason =>
    simp [FileStore.disk, outcome]
    rfl
  | ok next =>
    simp [FileStore.disk, outcome]
    rfl

theorem writeFile_run (store : FileStore) (path : String) (content : List UInt8) :
    (Build.writeFile FileStore.disk path content).run store =
      match written store path content with
      | .error reason => (.error reason, store)
      | .ok next => (.ok (), next) := by
  have stored := disk_write_run store path content
  unfold Build.writeFile written
  cases isPossiblePath path with
  | false => rfl
  | true =>
    simp only [if_true]
    cases outcome : store.write path content with
    | error reason =>
      rw [outcome] at stored
      rw [run_bind stored]
      rfl
    | ok next =>
      rw [outcome] at stored
      rw [run_bind stored]
      rfl

theorem written_cases (store : FileStore) (path : String) (first second : List UInt8) :
    (∃ reason, written store path first = .error reason ∧ written store path second = .error reason) ∨
      ∃ middle final, written store path first = .ok middle ∧
        written store path second = .ok final ∧ written middle path second = .ok final := by
  unfold written
  cases isPossiblePath path with
  | false => exact .inl ⟨_, rfl, rfl⟩
  | true =>
    cases outcome : store.write path first with
    | error reason =>
      rw [FileStore.write_eq_error outcome second]
      exact .inl ⟨_, rfl, rfl⟩
    | ok middle =>
      obtain ⟨final, direct, again⟩ := FileStore.write_write outcome second
      rw [direct]
      refine .inr ⟨middle, final, rfl, rfl, ?_⟩
      rw [again]
      rfl

variable {build : Build}

/-- The interpreter source is written as if at once, although the file is emptied first. -/
theorem write_run (store : FileStore) (path : String) {text : String}
    (rendered : build.interpreterSource = .ok text) :
    (({} : Settings).write FileStore.disk build path).run store =
      match written store path (Text.utf8Bytes text.toList) with
      | .error reason => ({ result := .error reason }, store)
      | .ok next => ({ result := .ok () }, next) := by
  have emptied := writeFile_run store path []
  unfold Settings.write
  -- If the file can be emptied, it can be filled.
  rcases written_cases store path [] (Text.utf8Bytes text.toList) with
    ⟨reason, first, second⟩ | ⟨middle, final, first, direct, again⟩
  · rw [first] at emptied
    rw [run_bind emptied, second]
    rfl
  · have filled := writeFile_run middle path (Text.utf8Bytes text.toList)
    rw [first] at emptied
    rw [again] at filled
    rw [run_bind emptied, direct]
    simp only [rendered]
    rw [run_bind filled]
    rfl

theorem writeOutfile_run (store : FileStore) (options : Options) (printed : Printed) {text : String}
    (rendered : build.interpreterSource = .ok text) :
    ∃ told, (writeOutfile FileStore.disk options build printed).run store =
      match put store options.outfile (Text.utf8Bytes text.toList) with
      | .error reason => ((.error reason, told), store)
      | .ok next => ((.ok (), told), next) := by
  unfold writeOutfile put
  cases options.outfile with
  | none => exact ⟨_, rfl⟩
  | some value =>
    cases value with
    | empty => exact ⟨_, rfl⟩
    | text path =>
      have stored := write_run store path rendered
      dsimp only
      cases outcome : written store path (Text.utf8Bytes text.toList) with
      | error reason =>
        rw [outcome] at stored
        rw [run_bind stored]
        exact ⟨_, rfl⟩
      | ok next =>
        rw [outcome] at stored
        rw [run_bind stored]
        exact ⟨_, rfl⟩

theorem writeBinary_run (store : FileStore) (options : Options) (printed : Printed)
    (build : Build) :
    ∃ told, (writeBinary FileStore.disk options build printed).run store =
      match putBinary store options build with
      | .error reason => ((.error reason, told), store)
      | .ok next => ((.ok (), told), next) := by
  unfold writeBinary putBinary
  cases options.binary with
  | none => exact ⟨_, rfl⟩
  | some value =>
    cases encoded : build.compilation.table.encode with
    | error reason =>
      cases value with
      | empty => exact ⟨_, rfl⟩
      | text path =>
        simp only [Build.save, encoded]
        exact ⟨_, rfl⟩
    | ok bytes =>
      cases value with
      | empty => exact ⟨_, rfl⟩
      | text path =>
        have stored := writeFile_run store path bytes
        simp only [Build.save, encoded, put]
        cases outcome : written store path bytes with
        | error reason =>
          rw [outcome] at stored
          rw [run_bind stored]
          exact ⟨_, rfl⟩
        | ok next =>
          rw [outcome] at stored
          rw [run_bind stored]
          exact ⟨_, rfl⟩

/-! ### Whole commands -/

theorem printListing_isOk (options : Options) (printed : Printed) {listing : String}
    (listed : build.compilation.table.listing = .ok listing) :
    ∃ told, printListing options build printed = .ok told := by
  unfold printListing
  rw [listed]
  split
  · exact ⟨_, rfl⟩
  · exact ⟨_, rfl⟩

theorem verdict_outcome (options : Options) (build : Build) (printed : Printed) :
    (verdict options build printed).outcome = .finished 0 ∨
      (verdict options build printed).outcome = .finished 2 := by
  unfold verdict
  dsimp only
  split
  · exact .inl rfl
  · cases options.strict with
    | false => exact .inl rfl
    | true => exact .inr rfl

theorem deliver_run {store : FileStore} {order : Order} {path text : String} (options : Options)
    (built : buildOf store order path = .ok build) (rendered : build.interpreterSource = .ok text)
    (printed : Printed) :
    ∃ response final, (deliver FileStore.disk options build printed).run store = (response, final) ∧
      match put store options.outfile (Text.utf8Bytes text.toList) with
      | .error reason => response.outcome = .escaped reason
      | .ok middle =>
        match putBinary middle options build with
        | .error reason => response.outcome = .escaped reason
        | .ok _ => response.outcome = .finished 0 ∨ response.outcome = .finished 2 := by
  obtain ⟨-, listing, listed⟩ := buildOf_renders built
  unfold deliver
  dsimp only
  generalize printed.complain _ = opening
  obtain ⟨told, outfile⟩ := writeOutfile_run store options opening rendered
  cases stored : put store options.outfile (Text.utf8Bytes text.toList) with
  | error reason =>
    rw [stored] at outfile
    exact ⟨_, _, run_bind outfile _, rfl⟩
  | ok middle =>
    rw [stored] at outfile
    rw [run_bind outfile]
    obtain ⟨said, binary⟩ := writeBinary_run middle options told build
    dsimp only
    cases saved : putBinary middle options build with
    | error reason =>
      rw [saved] at binary
      exact ⟨_, _, run_bind binary _, rfl⟩
    | ok final =>
      rw [saved] at binary
      rw [run_bind binary]
      obtain ⟨all, shown⟩ := printListing_isOk options said listed
      simp only [shown]
      exact ⟨_, _, rfl, verdict_outcome options build all⟩

/-- What a command does not handle: an order that is not named, a source path that no file can have,
bytes that are no text, a number with too many digits, and whatever keeps a file from being
written. -/
inductive Unhandled (store : FileStore) (source : String) (options : Options) : Escape → Prop where
  | order (unnamed : options.order = none) : Unhandled store source options .emptyOrder
  | path {order : Order} (named : options.order = some order)
      (impossible : isPossiblePath source = false) :
      Unhandled store source options (.build .impossiblePath)
  | bytes {order : Order} {bytes : List UInt8} (named : options.order = some order)
      (possible : isPossiblePath source = true) (read : store.read source = .ok bytes)
      (invalid : Text.ofUtf8? bytes = none) : Unhandled store source options (.build .invalidText)
  | digits {order : Order} {text : String} {limit : Text.TooManyDigits}
      (named : options.order = some order) (read : sourceText store source = .ok text)
      (failed : (Compilation.ofText text (some source) order).outcome =
        .error (.tooManyDigits limit)) :
      Unhandled store source options (.build (.compile (.tooManyDigits limit)))
  | outfile {order : Order} {build : Build} {text : String} {reason : Escape}
      (named : options.order = some order) (built : buildOf store order source = .ok build)
      (rendered : build.interpreterSource = .ok text)
      (refused : put store options.outfile (Text.utf8Bytes text.toList) = .error reason) :
      Unhandled store source options reason
  | binary {order : Order} {build : Build} {text : String} {middle : FileStore} {reason : Escape}
      (named : options.order = some order) (built : buildOf store order source = .ok build)
      (rendered : build.interpreterSource = .ok text)
      (kept : put store options.outfile (Text.utf8Bytes text.toList) = .ok middle)
      (refused : putBinary middle options build = .error reason) :
      Unhandled store source options reason

/-- The errors of a build that a command reports. -/
def IsReported : Build.Error → Prop
  | .file _ | .compile (.fault _) => True
  | _ => False

theorem compileAndDeliver_run (store : FileStore) (options : Options) (order : Order)
    (source : String) :
    ∃ response final,
      (compileAndDeliver FileStore.disk options order source).run store = (response, final) ∧
      match buildOf store order source with
      | .error reason => final = store ∧
          (IsReported reason → response.outcome = .finished 1) ∧
          (¬ IsReported reason → response.outcome = .escaped (.build reason))
      | .ok build => ∃ text, build.interpreterSource = .ok text ∧
          match put store options.outfile (Text.utf8Bytes text.toList) with
          | .error reason => response.outcome = .escaped reason
          | .ok middle =>
            match putBinary middle options build with
            | .error reason => response.outcome = .escaped reason
            | .ok _ => response.outcome = .finished 0 ∨ response.outcome = .finished 2 := by
  obtain ⟨report, compiled, result⟩ := compileFile_run store order source
  unfold compileAndDeliver
  dsimp only
  rw [run_bind compiled]
  cases built : buildOf store order source with
  | ok build =>
    rw [built] at result
    obtain ⟨⟨text, rendered⟩, -⟩ := buildOf_renders built
    simp only [result]
    obtain ⟨response, final, ran, outcome⟩ := deliver_run options built rendered _
    exact ⟨response, final, ran, text, rendered, outcome⟩
  | error reason =>
    rw [built] at result
    simp only [result]
    cases reason with
    | file reason => exact ⟨_, _, rfl, rfl, fun _ => rfl, fun other => (other trivial).elim⟩
    | compile failure =>
      cases failure with
      | fault diagnostic => exact ⟨_, _, rfl, rfl, fun _ => rfl, fun other => (other trivial).elim⟩
      | _ => exact ⟨_, _, rfl, rfl, False.elim, fun _ => rfl⟩
    | _ => exact ⟨_, _, rfl, rfl, False.elim, fun _ => rfl⟩

theorem rejected_cases {source : String} {filename : Option String} {failure : Compiler.Failure}
    (rejected : Compilation.Rejected source filename failure) :
    (∃ diagnostic, failure = .fault diagnostic) ∨ ∃ limit, failure = .tooManyDigits limit := by
  cases rejected with
  | layout => exact .inl ⟨_, rfl⟩
  | sections read aborts =>
    cases aborts with
    | constant => exact .inl ⟨_, rfl⟩
    | place => exact .inr ⟨_, rfl⟩
    | definition member line refused =>
      cases refused with
      | quote => exact .inl ⟨_, rfl⟩
      | place => exact .inr ⟨_, rfl⟩
      | body body stops =>
        cases stops with
        | string => exact .inl ⟨_, rfl⟩
        | literal => exact .inr ⟨_, rfl⟩
        | place => exact .inr ⟨_, rfl⟩

/-- A build fails with an error that is reported, or with one of those that are not handled. -/
theorem unhandled_of_buildOf {store : FileStore} {options : Options} {order : Order}
    {source : String} {reason : Build.Error} (named : options.order = some order)
    (failed : buildOf store order source = .error reason) (silent : ¬ IsReported reason) :
    Unhandled store source options (.build reason) := by
  unfold buildOf at failed
  split at failed
  · rename_i problem unread
    obtain rfl := Except.error.inj failed
    unfold sourceText at unread
    split at unread
    · rename_i possible
      split at unread
      · obtain rfl := Except.error.inj unread
        exact (silent trivial).elim
      · rename_i bytes read
        split at unread
        · rename_i invalid
          obtain rfl := Except.error.inj unread
          exact .bytes named possible read invalid
        · cases unread
    · rename_i impossible
      obtain rfl := Except.error.inj unread
      exact .path named (Bool.eq_false_iff.mpr impossible)
  · rename_i text read
    split at failed
    · rename_i failure stopped
      obtain rfl := Except.error.inj failed
      rcases rejected_cases (Compilation.ofText_rejected stopped) with
        ⟨diagnostic, rfl⟩ | ⟨limit, rfl⟩
      · exact (silent trivial).elim
      · exact .digits named read stopped
    · cases failed

theorem unhandled_iff_of_error {store : FileStore} {options : Options} {order : Order}
    {source : String} {error : Build.Error} {reason : Escape} (named : options.order = some order)
    (failed : buildOf store order source = .error error) :
    Unhandled store source options reason ↔ ¬ IsReported error ∧ reason = .build error := by
  constructor
  · intro unhandled
    cases unhandled with
    | order unnamed =>
      rw [named] at unnamed
      cases unnamed
    | path _ impossible =>
      simp [buildOf, sourceText, impossible] at failed
      exact ⟨failed ▸ id, failed ▸ rfl⟩
    | bytes _ possible read invalid =>
      simp [buildOf, sourceText, possible, read, invalid] at failed
      exact ⟨failed ▸ id, failed ▸ rfl⟩
    | digits chosen read many =>
      obtain rfl := Option.some.inj (chosen.symm.trans named)
      simp [buildOf, read, many] at failed
      exact ⟨failed ▸ id, failed ▸ rfl⟩
    | outfile chosen built | binary chosen built =>
      obtain rfl := Option.some.inj (chosen.symm.trans named)
      rw [failed] at built
      cases built
  · rintro ⟨silent, rfl⟩
    exact unhandled_of_buildOf named failed silent

theorem unhandled_iff_of_ok {store : FileStore} {options : Options} {order : Order}
    {source text : String} {reason : Escape} (named : options.order = some order)
    (built : buildOf store order source = .ok build) (rendered : build.interpreterSource = .ok text) :
    Unhandled store source options reason ↔
      put store options.outfile (Text.utf8Bytes text.toList) = .error reason ∨
        ∃ middle, put store options.outfile (Text.utf8Bytes text.toList) = .ok middle ∧
          putBinary middle options build = .error reason := by
  constructor
  · intro unhandled
    cases unhandled with
    | order unnamed =>
      rw [named] at unnamed
      cases unnamed
    | path _ impossible => simp [buildOf, sourceText, impossible] at built
    | bytes _ possible read invalid => simp [buildOf, sourceText, possible, read, invalid] at built
    | digits chosen read many =>
      obtain rfl := Option.some.inj (chosen.symm.trans named)
      simp [buildOf, read, many] at built
    | outfile chosen again shown refused =>
      obtain rfl := Option.some.inj (chosen.symm.trans named)
      obtain rfl := Except.ok.inj (again.symm.trans built)
      obtain rfl := Except.ok.inj (shown.symm.trans rendered)
      exact .inl refused
    | binary chosen again shown kept refused =>
      obtain rfl := Option.some.inj (chosen.symm.trans named)
      obtain rfl := Except.ok.inj (again.symm.trans built)
      obtain rfl := Except.ok.inj (shown.symm.trans rendered)
      exact .inr ⟨_, kept, refused⟩
  · rintro (refused | ⟨middle, kept, refused⟩)
    · exact .outfile named built rendered refused
    · exact .binary named built rendered kept refused

/-- A command ends with a status up to 2, or with an error exactly if that is not handled. -/
def EndsBy (unhandled : Escape → Prop) (outcome : Outcome) : Prop :=
  ((∃ status ≤ 2, outcome = .finished status) ∨ ∃ reason, outcome = .escaped reason) ∧
    ∀ reason, outcome = .escaped reason ↔ unhandled reason

theorem endsBy_finished {unhandled : Escape → Prop} {outcome : Outcome} {status : Nat}
    (finished : outcome = .finished status) (bounded : status ≤ 2)
    (handled : ∀ reason, ¬ unhandled reason) : EndsBy unhandled outcome := by
  subst finished
  refine ⟨.inl ⟨status, bounded, rfl⟩, fun reason => ⟨fun ends => ?_, fun escapes => ?_⟩⟩
  · cases ends
  · exact absurd escapes (handled reason)

theorem endsBy_escaped {unhandled : Escape → Prop} {outcome : Outcome} {cause : Escape}
    (escaped : outcome = .escaped cause) (alone : ∀ reason, unhandled reason ↔ reason = cause) :
    EndsBy unhandled outcome := by
  subst escaped
  refine ⟨.inr ⟨cause, rfl⟩, fun reason => ?_⟩
  rw [alone, Outcome.escaped.injEq, eq_comm]

theorem compileAndDeliver_endsBy {store : FileStore} {options : Options} {order : Order}
    {source : String} {response : Response} {final : FileStore} (named : options.order = some order)
    (ran : (compileAndDeliver FileStore.disk options order source).run store = (response, final)) :
    EndsBy (Unhandled store source options) response.outcome := by
  obtain ⟨told, reached, same, outcome⟩ := compileAndDeliver_run store options order source
  obtain ⟨rfl, rfl⟩ := Prod.mk.inj (same.symm.trans ran)
  cases built : buildOf store order source with
  | error error =>
    rw [built] at outcome
    by_cases reported : IsReported error
    · refine endsBy_finished (outcome.2.1 reported) (by decide) fun reason => ?_
      rw [unhandled_iff_of_error named built]
      exact fun silent => silent.1 reported
    · refine endsBy_escaped (outcome.2.2 reported) fun reason => ?_
      rw [unhandled_iff_of_error named built]
      exact and_iff_right reported
  | ok build =>
    rw [built] at outcome
    obtain ⟨text, rendered, outcome⟩ := outcome
    cases stored : put store options.outfile (Text.utf8Bytes text.toList) with
    | error cause =>
      rw [stored] at outcome
      refine endsBy_escaped outcome fun reason => ?_
      rw [unhandled_iff_of_ok named built rendered, stored]
      simp [eq_comm]
    | ok middle =>
      rw [stored] at outcome
      dsimp only at outcome
      cases saved : putBinary middle options build with
      | error cause =>
        rw [saved] at outcome
        refine endsBy_escaped outcome fun reason => ?_
        rw [unhandled_iff_of_ok named built rendered, stored]
        simp [saved, eq_comm]
      | ok next =>
        rw [saved] at outcome
        have handled : ∀ reason, ¬ Unhandled store source options reason := by
          intro reason
          rw [unhandled_iff_of_ok named built rendered, stored]
          simp [saved]
        rcases outcome with clean | strict
        · exact endsBy_finished clean (by decide) handled
        · exact endsBy_finished strict (by decide) handled

/-- A command whose arguments are accepted, by whatever parser, ends with a status up to 2, unless
something goes wrong that it does not handle. If its source cannot be read or compiled, no file is
touched, and the status is 1 if that is handled. -/
theorem run_outcome {parse : List String → Request} {arguments : List String} {source : String}
    {options : Options} (accepted : parse arguments = .run source options) (store : FileStore) :
    ∃ response final, (runWith parse FileStore.disk arguments).run store = (response, final) ∧
      EndsBy (Unhandled store source options) response.outcome ∧
      ∀ order error, options.order = some order → buildOf store order source = .error error →
        final = store ∧ (IsReported error → response.outcome = .finished 1) ∧
          (¬ IsReported error → response.outcome = .escaped (.build error)) := by
  unfold runWith
  rw [accepted]
  dsimp only
  cases named : options.order with
  | none =>
    refine ⟨_, store, rfl, endsBy_escaped rfl fun reason => ⟨fun unhandled => ?_, ?_⟩, by simp⟩
    · cases unhandled with
      | order => rfl
      | path other | bytes other | digits other | outfile other | binary other => simp [named] at other
    · rintro rfl
      exact .order named
  | some order =>
    obtain ⟨response, final, ran, outcome⟩ := compileAndDeliver_run store options order source
    refine ⟨response, final, ran, compileAndDeliver_endsBy named ran, ?_⟩
    intro other error same failed
    obtain rfl := Option.some.inj same
    rw [failed] at outcome
    exact outcome

/-- A source that is not there is reported, and the file for the output is not made. -/
theorem run_outcome_sample :
    parse ["-o", "out", "gone"] =
        .run "gone" { source := some "gone", outfile := some (.text "out") } ∧
      ∃ response, (run FileStore.disk ["-o", "out", "gone"]).run {} = (response, {}) ∧
        response.outcome = .finished 1 := by
  have accepted : parse ["-o", "out", "gone"] =
      .run "gone" { source := some "gone", outfile := some (.text "out") } := by decide +kernel
  have missing : buildOf {} .shadowing "gone" = .error (.file .notFound) := by rfl
  obtain ⟨response, final, ran, -, failed⟩ := run_outcome accepted {}
  obtain ⟨same, reported, -⟩ := failed .shadowing (.file .notFound) rfl missing
  exact ⟨accepted, response, same ▸ ran, reported trivial⟩

end CommandLine

end ThreadedCode
