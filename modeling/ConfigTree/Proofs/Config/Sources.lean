import ConfigTree.Proofs.Config.Session

/-!
# Sources

A document is the same to its readers wherever it comes from: from its file, read at once or when
it is needed, from its text, or from its tree. What a query answers depends on the format and on
what reading gives, a tree or an error (`Config.ask_reply`). As long as the files stay as they are,
queries do not change what reading gives (`Config.load_ask`), so that the answers of a whole
sequence of queries are known from the beginning (`Config.answers_eq`).
-/

namespace ConfigTree

variable {β : Type} {fs : FileSystem}

/-- The answer of a query where reading gives a tree or an error. A faulty path is reported
before. -/
def Query.reply (format : Format) (result : Except Error Tree) (q : Query β) : Except Error β :=
  q.tokens.bind fun tokens =>
    result.map fun t => q.answer format t (Path.walk format t tokens)

theorem Query.reply_ok (format : Format) (t : Tree) (q : Query β) :
    q.reply format (.ok t) = q.run format t := by
  rw [reply, run]
  cases q.tokens <;> rfl

/-- A query with an answer of some type. -/
abbrev AnyQuery : Type 1 :=
  Σ β : Type, Query β

namespace Config

/-- The answers to queries that are asked one after the other while the files stay as they are. -/
def answers (fs : FileSystem) (c : Config) : List AnyQuery → List (Σ β : Type, Except Error β)
  | [] => []
  | ⟨β, q⟩ :: queries => ⟨β, (c.ask fs q).1⟩ :: answers fs (c.ask fs q).2 queries

/-- The configuration behind such queries. -/
def asked (fs : FileSystem) (c : Config) (queries : List AnyQuery) : Config :=
  queries.foldl (fun c q => (c.ask fs q.2).2) c

/-- An answer depends on the format and on what reading gives. -/
theorem ask_reply (fs : FileSystem) (c : Config) (q : Query β) :
    (c.ask fs q).1 = q.reply c.format (c.load fs).1 := by
  rw [Query.reply]
  cases ht : q.tokens with
  | error e => rw [ask_of_tokens_error ht]; rfl
  | ok tokens =>
    cases hc : c.cached with
    | some t => rw [ask_of_cached hc, Query.run, ht, load, hc]; rfl
    | none =>
      rw [ask_of_empty hc ht, load, hc]
      cases fetch fs c.format c.source with
      | error e => rfl
      | ok t => simp only [Query.run, ht]; rfl

/-- A query does not change what reading gives. -/
theorem load_ask (fs : FileSystem) (c : Config) (q : Query β) :
    ((c.ask fs q).2.load fs).1 = (c.load fs).1 := by
  rw [ask_config]
  obtain ⟨source, format, cached⟩ := c
  cases cached with
  | some t => rfl
  | none =>
    cases q.isValid with
    | false => rfl
    | true => cases hf : fetch fs format source <;> simp [load, hf, Except.toOption]

theorem format_ask (fs : FileSystem) (c : Config) (q : Query β) :
    (c.ask fs q).2.format = c.format := by
  rw [ask_config]

/-- No answer depends on the queries before. -/
theorem answers_eq (fs : FileSystem) (c : Config) (queries : List AnyQuery) :
    c.answers fs queries = queries.map fun q => ⟨q.1, q.2.reply c.format (c.load fs).1⟩ := by
  induction queries generalizing c with
  | nil => rfl
  | cons q queries ih =>
    rw [answers, ih, load_ask, format_ask, ask_reply]
    rfl

/-- What is remembered behind queries: the document, if one of them had a valid path. -/
theorem asked_eq (fs : FileSystem) (c : Config) (queries : List AnyQuery) :
    c.asked fs queries = { c with
      cached := c.cached.or (if queries.any fun q => q.2.isValid
        then (fetch fs c.format c.source).toOption else none) } := by
  induction queries generalizing c with
  | nil => rw [List.any_nil, if_neg Bool.false_ne_true, Option.or_none]; rfl
  | cons q queries ih =>
    rw [asked, List.foldl_cons, ← asked, ih, ask_config, List.any_cons]
    cases q.2.isValid with
    | false => rw [Bool.false_or, if_neg Bool.false_ne_true, Option.or_none]
    | true =>
      rw [Bool.true_or, if_pos rfl, Option.or_assoc]
      cases (fetch fs c.format c.source).toOption with
      | some t => rw [Option.some_or]
      | none => rw [ite_self, Option.none_or]

/-- Queries are answered from the tree `t`, whatever has been asked before. -/
structure Shows (fs : FileSystem) (format : Format) (t : Tree) (c : Config) : Prop where
  answers : ∀ queries, c.answers fs queries = queries.map fun q => ⟨q.1, q.2.run format t⟩
  format : ∀ queries, (c.asked fs queries).format = format
  /-- Behind the first query with a valid path the tree has been read, if it had not been before. -/
  loaded : ∀ queries,
    (c.asked fs queries).isLoaded = (c.isLoaded || queries.any fun q => q.2.isValid)

variable {c : Config} {name path : String} {format : Format} {t : Tree}

theorem shows_of_load (same : c.format = format) (h : (c.load fs).1 = .ok t) :
    c.Shows fs format t := by
  subst same
  constructor
  case answers =>
    intro queries
    simp only [answers_eq, h, Query.reply_ok]
  case format =>
    intro queries
    rw [asked_eq]
  case loaded =>
    intro queries
    rw [asked_eq, isLoaded, isLoaded]
    cases hc : c.cached with
    | some cached => rfl
    | none =>
      rw [load, hc] at h
      cases hf : fetch fs c.format c.source with
      | error e => simp only [hf] at h; cases h
      | ok fetched => cases queries.any fun q => q.2.isValid <;> rfl

theorem fetch_file_of_read {s : String} (read : fs.read name = .ok s) (format : Format) :
    fetch fs format (.file name) = decode format s := by
  rw [fetch, read]

theorem openLazily_eq (expanded : FileName.expand fs.home name = .ok path)
    (known : Format.ofFileName path = .ok format) :
    openLazily fs name = .ok { source := .file path, format, cached := none } := by
  rw [openLazily, expanded, Except.bind, known, Except.map]

/-- A file that is read at once is opened when its document can be had. -/
theorem openFile_eq (expanded : FileName.expand fs.home name = .ok path)
    (known : Format.ofFileName path = .ok format) :
    openFile fs name = (fetch fs format (.file path)).map fun t =>
      { source := .file path, format, cached := some t } := by
  rw [openFile, openLazily_eq expanded known, Except.bind, loaded, load]
  cases hf : fetch fs format (.file path) <;> rfl

theorem exportJson_eq (expanded : FileName.expand fs.home name = .ok path)
    (known : Format.ofFileName path = .ok format) :
    exportJson fs name = (fetch fs format (.file path)).map Json.prettyText := by
  rw [exportJson, openFile_eq expanded known]
  cases fetch fs format (.file path) <;> rfl

end Config

/-- The document of a file cannot be had, and whatever needs it reports the error `e`. -/
structure Unavailable (fs : FileSystem) (name : String) (format : Format) (e : Error) : Prop where
  atOnce : Config.openFile fs name = .error e
  exported : Config.exportJson fs name = .error e
  /-- The file can be opened, but every query fails, and nothing is remembered. -/
  lazily : ∃ c, Config.openLazily fs name = .ok c ∧ c.format = format ∧
    ∀ queries, c.asked fs queries = c ∧ c.isLoaded = false ∧
      c.answers fs queries = queries.map fun q => ⟨q.1, q.2.tokens.bind fun _ => .error e⟩
  /-- The errors that come before `e` are about paths. -/
  faulty : ∀ {β : Type} (q : Query β) (e' : Error), q.tokens = .error e' →
    ∃ path indices, e' = .tooFewIndices path indices

theorem unavailable_of_fetch {name path : String} {format : Format} {e : Error}
    (expanded : FileName.expand fs.home name = .ok path)
    (known : Format.ofFileName path = .ok format)
    (failed : Config.fetch fs format (.file path) = .error e) :
    Unavailable fs name format e := by
  constructor
  case atOnce => rw [Config.openFile_eq expanded known, failed]; rfl
  case exported => rw [Config.exportJson_eq expanded known, failed]; rfl
  case lazily =>
    refine ⟨_, Config.openLazily_eq expanded known, rfl, ?_⟩
    intro queries
    refine ⟨?_, rfl, ?_⟩
    · simp only [Config.asked_eq, failed, Except.toOption, ite_self, Option.or_none]
    · rw [Config.answers_eq, Config.load]
      simp only [failed]
      rfl
  case faulty =>
    intro β q e' faulty
    exact Query.exists_tooFewIndices faulty

/-- As long as the files stay as they are, it makes no difference to queries whether a document is
opened as a file, lazily or at once, as a text or as a tree. A document that cannot be had is
reported at once or to every query, in the same words. -/
theorem sources_interchangeable {name path : String} {format : Format}
    (expanded : FileName.expand fs.home name = .ok path)
    (known : Format.ofFileName path = .ok format) :
    (∀ s t, fs.read path = .ok s → decode format s = .ok t →
      (∀ o ∈ [Opening.lazily name, .eagerly name, .text format s, .tree format t],
        ∃ c, o.config fs = .ok c ∧ c.isLoaded = !o.isLazy ∧ c.Shows fs format t) ∧
      Config.exportJson fs name = .ok (Json.prettyText t)) ∧
    (∀ failure, fs.read path = .error failure →
      Unavailable fs name format (.unreadable path failure.message)) ∧
    ∀ s e, fs.read path = .ok s → decode format s = .error e →
      Unavailable fs name format e ∧ Config.ofText format s = .error e := by
  refine ⟨?_, ?_, ?_⟩
  · intro s t read decoded
    have fetched := (Config.fetch_file_of_read read format).trans decoded
    have lazily : Opening.config fs (.lazily name) = .ok
        { source := .file path, format, cached := none } := by
      rw [Opening.config, Config.openLazily_eq expanded known]
    have eagerly : Opening.config fs (.eagerly name) = .ok
        { source := .file path, format, cached := some t } := by
      rw [Opening.config, Config.openFile_eq expanded known, fetched, Except.map]
    have text : Opening.config fs (.text format s) = .ok
        { source := .text s, format, cached := some t } := by
      rw [Opening.config, Config.ofText, decoded, Except.map]
    constructor
    · simp only [List.forall_mem_cons]
      refine ⟨⟨_, lazily, rfl, Config.shows_of_load rfl ?_⟩,
        ⟨_, eagerly, rfl, Config.shows_of_load rfl rfl⟩,
        ⟨_, text, rfl, Config.shows_of_load rfl rfl⟩,
        ⟨_, rfl, rfl, Config.shows_of_load rfl rfl⟩, List.forall_mem_nil _⟩
      simp only [Config.load, fetched]
    · rw [Config.exportJson_eq expanded known, fetched]
      rfl
  · intro failure read
    apply unavailable_of_fetch expanded known
    rw [Config.fetch, read]
  · intro s e read decoded
    constructor
    · exact unavailable_of_fetch expanded known
        ((Config.fetch_file_of_read read format).trans decoded)
    · rw [Config.ofText, decoded]
      rfl

/-- A world with a file in which nothing stands. -/
def emptyWorld : FileSystem where
  nodes := [(["a.json"], .file "".toUTF8)]
  home := "home"

theorem read_emptyWorld : emptyWorld.read "a.json" = .ok "" :=
  FileSystem.read_of_locate (show emptyWorld.locate _ = .ok ["a.json"] by rfl) rfl

theorem decode_json_empty : decode .json "" = .error (.badDocument .json .malformed) := by
  have lexemes : Json.Lexeme.ofText? [] = some [] := by
    rw [Json.Lexeme.ofText?]
    rfl
  have malformed : Json.decode "" = .error .malformed := by
    rw [Json.decode, Json.parse?, String.toList_empty, lexemes]
    rfl
  rw [decode, malformed]
  rfl

/-- A document that can be had, one that is missing, and one that is empty. -/
theorem sources_interchangeable_worlds :
    (∃ c, Config.openLazily writtenWorld "home/a.properties" = .ok c ∧
      c.answers writtenWorld [⟨_, .has "k.k"⟩, ⟨_, .value "k" []⟩] =
        [⟨_, .ok false⟩, ⟨_, .ok (some (Tree.text "v"))⟩]) ∧
    (∃ c, Config.openLazily bareWorld "~/a.yml" = .ok c ∧
      c.answers bareWorld [⟨_, .has "k"⟩, ⟨_, .value "#.#" [1]⟩] =
        [⟨Bool, .error (.unreadable "home/a.yml" "No such file or directory (os error 2)")⟩,
          ⟨Option Tree, .error (.tooFewIndices "#.#" [1])⟩]) ∧
    Config.exportJson emptyWorld "a.json" = .error (.badDocument .json .malformed) := by
  refine ⟨?_, ?_, ?_⟩
  · have expanded : FileName.expand writtenWorld.home "home/a.properties" =
        .ok "home/a.properties" := by rfl
    have known : Format.ofFileName "home/a.properties" = .ok .properties := by rfl
    have decoded : decode .properties "k=v" = .ok (.map [("k", .text "v")]) := by rfl
    obtain ⟨shown, -⟩ := (sources_interchangeable expanded known).1 _ _ read_writtenWorld decoded
    obtain ⟨c, opened, -, shows⟩ := shown (.lazily "home/a.properties") List.mem_cons_self
    exact ⟨c, opened, shows.answers _⟩
  · have expanded : FileName.expand bareWorld.home "~/a.yml" = .ok "home/a.yml" := by rfl
    have known : Format.ofFileName "home/a.yml" = .ok .yaml := by rfl
    have missing : bareWorld.read "home/a.yml" = .error .missing := by rfl
    obtain ⟨c, opened, -, kept⟩ :=
      ((sources_interchangeable expanded known).2.1 _ missing).lazily
    exact ⟨c, opened, (kept _).2.2⟩
  · have expanded : FileName.expand emptyWorld.home "a.json" = .ok "a.json" := by rfl
    have known : Format.ofFileName "a.json" = .ok .json := by rfl
    have empty := (sources_interchangeable expanded known).2.2 _ _ read_emptyWorld decode_json_empty
    exact empty.1.exported

end ConfigTree
