import ConfigTree.Config.Query

/-!
# Sessions

A session is a configuration in a world that changes around it: queries are asked in any order,
and between them files and the home directory become anything. The tree of a configuration is
read at most once. `Config.ask_config` says what a single query does to what is remembered,
`Session.config_run` what a whole session does: the tree is that of the first moment at which a
query with a valid path was asked and the document could be had, and it stays
(`Session.cached_run_of_cached`). `Remembers` collects what this means for the answers.
-/

namespace ConfigTree

/-- The tree of the document in a file, if the file can be read and decoded. -/
def FileSystem.document? (fs : FileSystem) (format : Format) (name : String) : Option Tree :=
  match fs.read name with
  | .ok text => (decode format text).toOption
  | .error _ => none

/-- A file that holds a text is read as that text. -/
theorem FileSystem.read_of_locate {fs : FileSystem} {name s : String} {place : Place}
    (located : fs.locate name = .ok place) (node : fs.node? place = some (.file s.toUTF8)) :
    fs.read name = .ok s := by
  have content : String.fromUTF8? s.toUTF8 = some s := dif_pos s.isValidUTF8
  simp only [read, located, node, content]

/-- Whether a cause is one that a query can meet; an unknown format is met at opening only. -/
def Cause.isOfQuery : Cause → Bool
  | .unknownFormat _ => false
  | _ => true

/-- A way to obtain a configuration. -/
inductive Opening where
  /-- From a file, which is read when it is first needed. -/
  | lazily (name : String)
  /-- From a file, which is read at once. -/
  | eagerly (name : String)
  | text (format : Format) (content : String)
  | tree (format : Format) (t : Tree)

namespace Opening

/-- The configuration that is obtained. -/
def config (fs : FileSystem) : Opening → Except Error Config
  | .lazily name => Config.openLazily fs name
  | .eagerly name => Config.openFile fs name
  | .text format content => Config.ofText format content
  | .tree format t => .ok (Config.ofTree format t)

/-- Whether the tree is not read at once. -/
def isLazy : Opening → Bool
  | .lazily _ => true
  | _ => false

end Opening

/-- Whether the path of a query can be read. -/
def Query.isValid {β : Type} (q : Query β) : Bool :=
  q.tokens.toOption.isSome

theorem Query.isValid_iff {β : Type} {q : Query β} :
    q.isValid = true ↔ ∃ tokens, q.tokens = .ok tokens := by
  rw [isValid]
  cases q.tokens with
  | ok tokens => exact ⟨fun _ => ⟨tokens, rfl⟩, fun _ => rfl⟩
  | error e => exact ⟨nofun, nofun⟩

/-- What happens in a session. -/
inductive Event : Type 1 where
  /-- Files and the home directory become those of `fs`. -/
  | change (fs : FileSystem)
  /-- A query is asked. -/
  | ask {β : Type} (q : Query β)

/-- A configuration and the files around it. -/
structure Session where
  files : FileSystem
  config : Config

namespace Session

/-- The session after an event. -/
def step (s : Session) : Event → Session
  | .change fs => { s with files := fs }
  | .ask q => { s with config := (s.config.ask s.files q).2 }

/-- The session after events. -/
def run (s : Session) (events : List Event) : Session :=
  events.foldl step s

end Session

/-- The files at each moment at which a query with a valid path is asked, in order. -/
def moments (fs : FileSystem) : List Event → List FileSystem
  | [] => []
  | .change fs :: events => moments fs events
  | .ask q :: events => if q.isValid then fs :: moments fs events else moments fs events

/-- The tree that a configuration has after events: a lazy one has the document of the first
moment at which there was one, the others have their tree from the beginning. Where a file is, is
settled by the home directory at opening. -/
def Opening.tree? (fs : FileSystem) (format : Format) (events : List Event) :
    Opening → Option Tree
  | .lazily name => (FileName.expand fs.home name).toOption.bind fun path =>
    (moments fs events).findSome? fun files => files.document? format path
  | .eagerly name => (FileName.expand fs.home name).toOption.bind (fs.document? format)
  | .text _ content => (decode format content).toOption
  | .tree _ t => some t

/-- A path is faulty in one way only: it has more placeholders than there are indices. -/
theorem Path.exists_tooFewIndices {path : String} {indices : List Nat} {e : Error}
    (h : tokenize path indices = .error e) : ∃ trimmed, e = .tooFewIndices trimmed indices := by
  rw [tokenize] at h
  cases hs : Token.ofSegments? (split (Text.trim path.toList)) indices with
  | some tokens => simp only [hs] at h; cases h
  | none =>
    simp only [hs] at h
    exact ⟨_, (Except.error.inj h).symm⟩

theorem Query.exists_tooFewIndices {β : Type} {q : Query β} {e : Error}
    (h : q.tokens = .error e) : ∃ path indices, e = .tooFewIndices path indices := by
  have faulty (path : String) (indices : List Nat) (ht : Path.tokenize path indices = .error e) :
      ∃ path indices, e = .tooFewIndices path indices :=
    (Path.exists_tooFewIndices ht).imp fun _ he => ⟨indices, he⟩
  cases q with
  | getOr | get | value | find => exact faulty _ _ h
  | has path | keys path => exact faulty path [] h
  | rootKeys | tree => cases h

theorem Query.isOfQuery_of_tokens {β : Type} {q : Query β} {e : Error} (h : q.tokens = .error e) :
    e.cause.isOfQuery = true := by
  obtain ⟨path, indices, rfl⟩ := Query.exists_tooFewIndices h
  rfl

namespace Config

variable {β : Type} {fs : FileSystem} {c : Config} {q : Query β}

theorem toOption_fetch_file (fs : FileSystem) (format : Format) (name : String) :
    (fetch fs format (.file name)).toOption = fs.document? format name := by
  rw [fetch, FileSystem.document?]
  cases fs.read name <;> rfl

/-- A faulty path is reported whatever the files are. -/
theorem ask_of_tokens_error {e : Error} (h : q.tokens = .error e) :
    c.ask fs q = (.error e, c) := by
  rw [ask, h]

/-- A tree that has been read is the only thing that an answer depends on. -/
theorem ask_of_cached {t : Tree} (h : c.cached = some t) :
    c.ask fs q = (q.run c.format t, c) := by
  rw [ask, Query.run, load, h]
  cases q.tokens <;> rfl

/-- As long as there is no tree, a query with a valid path reads the document. -/
theorem ask_of_empty {tokens : List Path.Token} (h : c.cached = none)
    (valid : q.tokens = .ok tokens) :
    c.ask fs q = match fetch fs c.format c.source with
      | .ok t => (q.run c.format t, { c with cached := some t })
      | .error e => (.error e, c) := by
  rw [ask, valid, load, h]
  cases fetch fs c.format c.source with
  | ok t => simp only [Query.run, valid]; rfl
  | error e => rfl

/-- What a query makes a configuration remember: the document, if there was no tree and the path
is valid. -/
theorem ask_config (fs : FileSystem) (c : Config) (q : Query β) :
    (c.ask fs q).2 = { c with
      cached := c.cached.or
        (if q.isValid then (fetch fs c.format c.source).toOption else none) } := by
  obtain ⟨source, format, cached⟩ := c
  cases cached with
  | some t => rw [ask_of_cached rfl]; rfl
  | none =>
    rw [Query.isValid]
    cases ht : q.tokens with
    | error e => rw [ask_of_tokens_error ht]; rfl
    | ok tokens =>
      rw [ask_of_empty rfl ht]
      cases fetch fs format source <;> rfl

/-- A query that answers an error leaves the configuration as it was. -/
theorem ask_config_of_error {e : Error} (h : (c.ask fs q).1 = .error e) :
    (c.ask fs q).2 = c := by
  cases hc : c.cached with
  | some t => rw [ask_of_cached hc]
  | none =>
    cases ht : q.tokens with
    | error e' => rw [ask_of_tokens_error ht]
    | ok tokens =>
      rw [ask_of_empty hc ht] at h ⊢
      cases hf : fetch fs c.format c.source with
      | error e' => rfl
      | ok t =>
        simp only [hf, Query.run, ht] at h
        cases h

theorem isOfQuery_of_fetch {format : Format} {source : Source} {e : Error}
    (h : fetch fs format source = .error e) : e.cause.isOfQuery = true := by
  cases source with
  | file name =>
    rw [fetch] at h
    cases hr : fs.read name with
    | ok text =>
      rw [hr] at h
      obtain ⟨fault, rfl⟩ := decode_error h
      rfl
    | error failure =>
      rw [hr] at h
      obtain rfl := Except.error.inj h
      rfl
  | text content =>
    obtain ⟨fault, rfl⟩ := decode_error h
    rfl
  | tree => cases h

/-- A query never meets an unknown format. -/
theorem isOfQuery_of_ask {e : Error} (h : (c.ask fs q).1 = .error e) :
    e.cause.isOfQuery = true := by
  cases ht : q.tokens with
  | error e' =>
    rw [ask_of_tokens_error ht] at h
    obtain rfl := Except.error.inj h
    exact Query.isOfQuery_of_tokens ht
  | ok tokens =>
    cases hc : c.cached with
    | some t =>
      rw [ask_of_cached hc, Query.run, ht] at h
      cases h
    | none =>
      rw [ask_of_empty hc ht] at h
      cases hf : fetch fs c.format c.source with
      | ok t =>
        simp only [hf, Query.run, ht] at h
        cases h
      | error e' =>
        rw [hf] at h
        obtain rfl := Except.error.inj h
        exact isOfQuery_of_fetch hf

theorem eq_of_openLazily {name : String} (h : openLazily fs name = .ok c) :
    ∃ path, FileName.expand fs.home name = .ok path ∧
      c = { source := .file path, format := c.format, cached := none } := by
  rw [openLazily] at h
  cases he : FileName.expand fs.home name with
  | error e => rw [he] at h; cases h
  | ok path =>
    rw [he, Except.bind] at h
    cases hf : Format.ofFileName path with
    | error e => rw [hf] at h; cases h
    | ok format =>
      rw [hf] at h
      obtain rfl := Except.ok.inj h
      exact ⟨path, rfl, rfl⟩

/-- A configuration whose tree is read at once keeps what was fetched. -/
theorem eq_of_loaded {c' : Config} (hc : c.cached = none) (h : c.loaded fs = .ok c') :
    ∃ t, fetch fs c.format c.source = .ok t ∧ c' = { c with cached := some t } := by
  rw [loaded, load, hc] at h
  cases hf : fetch fs c.format c.source with
  | error e => simp only [hf] at h; cases h
  | ok t =>
    simp only [hf] at h
    exact ⟨t, rfl, (Except.ok.inj h).symm⟩

end Config

namespace Opening

variable {fs : FileSystem} {o : Opening} {c : Config}

theorem tree?_of_isLazy_eq_false (h : o.isLazy = false) (format : Format)
    (events : List Event) : o.tree? fs format events = o.tree? fs format [] := by
  cases o with
  | lazily => cases h
  | eagerly | text | tree => rfl

/-- What a configuration is when it has been obtained. -/
theorem eq_of_config (h : o.config fs = .ok c) :
    c.cached = o.tree? fs c.format [] ∧ (o.isLazy = false → c.isLoaded = true) ∧
      ∀ name, o = .lazily name →
        ∃ path, FileName.expand fs.home name = .ok path ∧ c.source = .file path := by
  cases o with
  | lazily name =>
    rw [config] at h
    obtain ⟨path, expanded, hc⟩ := Config.eq_of_openLazily h
    refine ⟨?_, nofun, ?_⟩
    · rw [tree?, expanded]
      exact congrArg Config.cached hc
    · rintro _ ⟨⟩
      exact ⟨path, expanded, congrArg Config.source hc⟩
  | eagerly name =>
    rw [config, Config.openFile] at h
    cases ho : Config.openLazily fs name with
    | error e => rw [ho] at h; cases h
    | ok opened =>
      rw [ho] at h
      obtain ⟨path, expanded, hl⟩ := Config.eq_of_openLazily ho
      obtain ⟨t, hf, rfl⟩ := Config.eq_of_loaded (congrArg Config.cached hl) h
      refine ⟨?_, fun _ => rfl, nofun⟩
      rw [congrArg Config.source hl] at hf
      rw [tree?, expanded]
      show _ = fs.document? opened.format path
      rw [← Config.toOption_fetch_file, hf]
      rfl
  | text format content =>
    rw [config, Config.ofText] at h
    cases hd : decode format content with
    | error e => rw [hd] at h; cases h
    | ok t =>
      rw [hd] at h
      obtain rfl := Except.ok.inj h
      refine ⟨?_, fun _ => rfl, nofun⟩
      rw [tree?, hd]
      rfl
  | tree format t =>
    obtain rfl := Except.ok.inj h
    exact ⟨rfl, fun _ => rfl, nofun⟩

end Opening

namespace Session

/-- What a session makes a configuration remember: nothing but the document of the first moment
at which there was one. -/
theorem config_run (s : Session) (events : List Event) :
    (s.run events).config = { s.config with
      cached := s.config.cached.or ((moments s.files events).findSome? fun files =>
        (Config.fetch files s.config.format s.config.source).toOption) } := by
  induction events generalizing s with
  | nil => rw [moments, List.findSome?_nil, Option.or_none]; rfl
  | cons event events ih =>
    rw [run, List.foldl_cons, ← run, ih]
    cases event with
    | change fs => rfl
    | ask q =>
      rw [step, Config.ask_config, moments]
      split
      · rw [List.findSome?_cons]
        simp only [Option.or_assoc]
        cases (Config.fetch s.files s.config.format s.config.source).toOption <;> rfl
      · simp only [Option.or_none]

/-- What was remembered at some moment of a session is remembered from then on. -/
theorem cached_run_of_cached {s : Session} {t : Tree} (h : s.config.cached = some t)
    (events : List Event) : (s.run events).config.cached = some t := by
  rw [config_run, h, Option.some_or]

end Session

/-- How a session `s` that came out of the configuration `c` by `events` stands to the opening
that gave `c` among the files `fs`. -/
structure Remembers (fs : FileSystem) (o : Opening) (c : Config) (events : List Event)
    (s : Session) : Prop where
  fileName : s.config.fileName? = c.fileName?
  format : s.config.format = c.format
  /-- The tree is the document of the first moment at which a query with a valid path met one; it
  is there from the beginning if the opening was not lazy. -/
  cached : s.config.cached = o.tree? fs c.format events
  loaded : o.isLazy = false → s.config.isLoaded = true
  /-- A tree that is there stays whatever happens later. -/
  kept : ∀ t, s.config.cached = some t → ∀ later, (s.run later).config.cached = some t
  /-- With a tree every answer is a function of tree, format and query. -/
  settled : ∀ t, s.config.cached = some t → ∀ (files : FileSystem) {β : Type} (q : Query β),
    s.config.ask files q = (q.run c.format t, s.config)
  /-- An error leaves the configuration as it was. -/
  failed : ∀ {β : Type} (q : Query β) (e : Error), (s.config.ask s.files q).1 = .error e →
    (s.config.ask s.files q).2 = s.config ∧ e.cause.isOfQuery = true
  /-- Without a tree a query with a valid path reads the document as it is now. -/
  retried : s.config.cached = none → ∀ {β : Type} (q : Query β), q.isValid = true →
    s.config.ask s.files q = match Config.fetch s.files c.format c.source with
      | .ok t => (q.run c.format t, { s.config with cached := some t })
      | .error e => (.error e, s.config)
  /-- A query with a faulty path answers the same whatever the files are. -/
  unread : ∀ {β : Type} (q : Query β) (e : Error), q.tokens = .error e →
    ∀ files : FileSystem, s.config.ask files q = (.error e, s.config)

/-- However a configuration was opened and whatever is asked and changed in whatever order, its
tree is read once, at the first moment at which that succeeds, and is remembered from then on. -/
theorem session_remembers {fs : FileSystem} {o : Opening} {c : Config} (h : o.config fs = .ok c)
    (events : List Event) : Remembers fs o c events (Session.run ⟨fs, c⟩ events) := by
  have run := Session.config_run ⟨fs, c⟩ events
  obtain ⟨start, atOnce, source⟩ := Opening.eq_of_config h
  have format : (Session.run ⟨fs, c⟩ events).config.format = c.format := by rw [run]
  have sameSource : (Session.run ⟨fs, c⟩ events).config.source = c.source := by rw [run]
  have atStart (hl : o.isLazy = false) : ∃ t, c.cached = some t :=
    Option.isSome_iff_exists.1 (atOnce hl)
  constructor
  case fileName => rw [Config.fileName?, sameSource, ← Config.fileName?]
  case format => exact format
  case cached =>
    cases hl : o.isLazy with
    | true =>
      cases o with
      | lazily name =>
        obtain ⟨path, expanded, file⟩ := source name rfl
        rw [run, Opening.tree?, expanded]
        rw [Opening.tree?, expanded] at start
        simp only [start, file, Config.toOption_fetch_file]
        rfl
      | eagerly | text | tree => cases hl
    | false =>
      obtain ⟨t, ht⟩ := atStart hl
      rw [Session.cached_run_of_cached ht, Opening.tree?_of_isLazy_eq_false hl, ← start, ht]
  case loaded =>
    intro hl
    obtain ⟨t, ht⟩ := atStart hl
    rw [Config.isLoaded, Session.cached_run_of_cached ht]
    rfl
  case kept =>
    intro t ht later
    exact Session.cached_run_of_cached ht later
  case settled =>
    intro t ht files β q
    rw [Config.ask_of_cached ht, format]
  case failed =>
    intro β q e he
    constructor
    · exact Config.ask_config_of_error he
    · exact Config.isOfQuery_of_ask he
  case retried =>
    intro hc β q valid
    obtain ⟨tokens, ht⟩ := q.isValid_iff.1 valid
    rw [Config.ask_of_empty hc ht]
    simp only [format, sameSource]
  case unread =>
    intro β q e he files
    exact Config.ask_of_tokens_error he

/-- A world in which nothing has been written. -/
def bareWorld : FileSystem where
  nodes := []
  home := "home"

/-- A world with a document, in which the home directory is another one. -/
def writtenWorld : FileSystem where
  nodes := [(["home"], .directory), (["home", "a.properties"], .file "k=v".toUTF8)]
  home := "elsewhere"

theorem read_writtenWorld : writtenWorld.read "home/a.properties" = .ok "k=v" :=
  FileSystem.read_of_locate (show writtenWorld.locate _ = .ok ["home", "a.properties"] by rfl) rfl

theorem document?_writtenWorld :
    writtenWorld.document? .properties "home/a.properties" = some (.map [("k", .text "v")]) := by
  have decoded : decode .properties "k=v" = .ok (.map [("k", .text "v")]) := by rfl
  rw [FileSystem.document?, read_writtenWorld]
  exact congrArg Except.toOption decoded

/-- A file that is missing at first, appears, and is gone again: the tree is that of the moment
in between. -/
theorem session_remembers_writtenWorld :
    ∃ c, Opening.config bareWorld (.lazily "~/a.properties") = .ok c ∧
      (Session.run ⟨bareWorld, c⟩ [.ask .tree, .change writtenWorld, .ask (.keys "#"),
        .change bareWorld, .ask .tree]).config.cached = some (.map [("k", .text "v")]) := by
  have opened : Opening.config bareWorld (.lazily "~/a.properties") =
      .ok { source := .file "home/a.properties", format := .properties, cached := none } := by rfl
  refine ⟨_, opened, ?_⟩
  have remembers := session_remembers opened
    [.ask .tree, .change writtenWorld, .ask (.keys "#"), .change bareWorld, .ask .tree]
  have name : FileName.expand bareWorld.home "~/a.properties" = .ok "home/a.properties" := by rfl
  have missing : bareWorld.document? .properties "home/a.properties" = none := by rfl
  rw [remembers.cached, Opening.tree?, name, Except.toOption, Option.bind_some]
  show [bareWorld, writtenWorld, bareWorld].findSome? _ = _
  simp only [List.findSome?_cons, missing, document?_writtenWorld]

end ConfigTree
