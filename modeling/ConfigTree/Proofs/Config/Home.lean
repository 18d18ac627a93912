import ConfigTree.Config.Basic

/-!
# Names in the home directory

A name that begins with `~/` is looked for in the home directory, and not at all if that is not
known (`FileName.expand_eq_error_iff`). What follows is put behind the home directory component by
component (`FileName.parts_join`), and the last component, which settles the format, stays
(`Format.ofFileName_join`). What follows may itself begin at the root, and is then not sought in the
home directory at all (`rooted_not_in_home`).
-/

namespace ConfigTree

namespace Text

theorem splitOn_ne_nil (separator : Char) (cs : List Char) : splitOn separator cs ≠ [] := by
  cases cs with
  | nil => exact List.cons_ne_nil _ _
  | cons c cs =>
    rw [splitOn]
    split
    · exact List.cons_ne_nil _ _
    · split <;> exact List.cons_ne_nil _ _

theorem splitOn_append (separator : Char) (as bs : List Char) :
    splitOn separator (as ++ separator :: bs) = splitOn separator as ++ splitOn separator bs := by
  induction as with
  | nil => simp [splitOn]
  | cons a as ih =>
    rw [List.cons_append, splitOn, splitOn, ih]
    split
    · rfl
    · cases pieces : splitOn separator as with
      | nil => exact absurd pieces (splitOn_ne_nil separator as)
      | cons piece rest => rfl

theorem head?_splitOn_append (separator : Char) (as bs : List Char) :
    (splitOn separator (as ++ separator :: bs)).head? = (splitOn separator as).head? := by
  rw [splitOn_append]
  cases pieces : splitOn separator as with
  | nil => exact absurd pieces (splitOn_ne_nil separator as)
  | cons piece rest => rfl

end Text

namespace FileName

/-- Where a name says that it goes out from: the root, or the working directory if the name begins
with a single dot. -/
def start (name : List Char) : List (List Char) :=
  if name.head? = some '/' then [['/']]
  else if (Text.splitOn '/' name).head? = some ['.'] then [['.']]
  else []

/-- The way along a name: where it goes out from, and its components. -/
def parts (name : List Char) : List (List Char) :=
  start name ++ components name

theorem components_append (as bs : List Char) :
    components (as ++ '/' :: bs) = components as ++ components bs := by
  rw [components, Text.splitOn_append, List.filter_append, components, components]

theorem start_append {as : List Char} (h : as ≠ []) (bs : List Char) :
    start (as ++ '/' :: bs) = start as := by
  unfold start
  rw [Text.head?_splitOn_append]
  cases as with
  | nil => exact absurd rfl h
  | cons a as => rfl

/-- The name below a directory, which may or may not end in a slash. -/
theorem toList_join {directory name : String} (h : directory ≠ "")
    (relative : name.toList.head? ≠ some '/') :
    (∃ above, directory.toList = above ++ ['/'] ∧
      (join directory name).toList = above ++ '/' :: name.toList) ∨
    (join directory name).toList = directory.toList ++ '/' :: name.toList := by
  unfold join
  split
  · next rooted =>
    rw [rooted] at relative
    exact absurd rfl relative
  · split
    · next empty => exact absurd (String.toList_eq_nil_iff.1 (List.getLast?_eq_none_iff.1 empty)) h
    · next slash =>
      obtain ⟨above, ends⟩ := List.getLast?_eq_some_iff.1 slash
      refine .inl ⟨above, ends, ?_⟩
      rw [String.toList_append, ends, List.append_assoc]
      rfl
    · refine .inr ?_
      rw [String.toList_append, String.toList_append, List.append_assoc]
      rfl

theorem components_join {directory name : String} (h : directory ≠ "")
    (relative : name.toList.head? ≠ some '/') :
    components (join directory name).toList =
      components directory.toList ++ components name.toList := by
  obtain ⟨above, ends, text⟩ | text := toList_join h relative
  · have closed : components (above ++ ['/']) = components above := by
      rw [components_append]
      exact List.append_nil _
    rw [text, ends, closed, components_append]
  · rw [text, components_append]

theorem start_join {directory name : String} (h : directory ≠ "")
    (relative : name.toList.head? ≠ some '/') :
    start (join directory name).toList = start directory.toList := by
  obtain ⟨above, ends, text⟩ | text := toList_join h relative
  · rw [text, ends]
    cases above with
    | nil => rfl
    | cons a as => rw [start_append (List.cons_ne_nil _ _), start_append (List.cons_ne_nil _ _)]
  · rw [text, start_append (mt String.toList_eq_nil_iff.1 h)]

/-- Behind a directory come the components of a name that does not begin at the root. -/
theorem parts_join {directory name : String} (h : directory ≠ "")
    (relative : name.toList.head? ≠ some '/') :
    parts (join directory name).toList = parts directory.toList ++ components name.toList := by
  rw [parts, start_join h relative, components_join h relative, parts, List.append_assoc]

theorem join_of_rooted {directory name : String} (rooted : name.toList.head? = some '/') :
    join directory name = name := by
  obtain ⟨rest, text⟩ := List.head?_eq_some_iff.1 rooted
  rw [join, text]
  rfl

/-- The last component alone settles the extension. -/
theorem extension_of_components {a b : String} {above : List (List Char)}
    (h : components a.toList = above ++ components b.toList) (nonempty : components b.toList ≠ []) :
    extension a = extension b := by
  obtain ⟨last, ends⟩ := Option.isSome_iff_exists.1 (List.getLast?_isSome.2 nonempty)
  rw [extension, extension, h, List.getLast?_append, ends]
  rfl

theorem toList_tilde (name : String) : ("~/" ++ name).toList = ['~'] ++ '/' :: name.toList := by
  rw [String.toList_append]
  rfl

theorem components_tilde (name : String) :
    components ("~/" ++ name).toList = [['~']] ++ components name.toList := by
  rw [toList_tilde, components_append]
  rfl

theorem exists_tilde {name : String} (h : ['~', '/'] <+: name.toList) :
    ∃ rest : String, name = "~/" ++ rest := by
  obtain ⟨rest, text⟩ := h
  refine ⟨String.ofList rest, ?_⟩
  apply String.toList_inj.1
  rw [toList_tilde, String.toList_ofList]
  exact text.symm

theorem expand_tilde_some (home name : String) :
    expand (some home) ("~/" ++ name) = .ok (join home name) := by
  rw [expand, toList_tilde]
  show Except.ok (join home (String.ofList name.toList)) = _
  rw [String.ofList_toList]

theorem expand_tilde_none (name : String) :
    expand none ("~/" ++ name) = .error (.unknownHome ("~/" ++ name)) := by
  rw [expand, toList_tilde]
  rfl

variable {home : Option String}

theorem expand_of_not_tilde {name : String} (h : ¬['~', '/'] <+: name.toList) :
    expand home name = .ok name := by
  unfold expand
  split
  · next rest text => exact absurd ⟨rest, text.symm⟩ h
  · rfl

/-- The only names that have no expansion are those in a home directory that is not known. -/
theorem expand_eq_error_iff {name : String} {e : Error} :
    expand home name = .error e ↔
      home = none ∧ ['~', '/'] <+: name.toList ∧ e = .unknownHome name := by
  by_cases tilde : ['~', '/'] <+: name.toList
  · obtain ⟨rest, rfl⟩ := exists_tilde tilde
    cases home with
    | some home => simp [expand_tilde_some]
    | none => simp [expand_tilde_none, eq_comm]
  · simp [expand_of_not_tilde tilde, tilde]

end FileName

namespace Format

/-- A name that has a format has a component behind the tilde. -/
theorem components_ne_nil_of_tilde {name : String} {format : Format}
    (h : ofFileName ("~/" ++ name) = .ok format) : FileName.components name.toList ≠ [] := by
  intro empty
  have extension : FileName.extension ("~/" ++ name) = "" := by
    rw [FileName.extension, FileName.components_tilde, empty]
    rfl
  rw [ofFileName, extension] at h
  cases h

/-- The format of a name is the same wherever the tilde leads. -/
theorem ofFileName_join {directory name : String} {format : Format} (h : directory ≠ "")
    (supported : ofFileName ("~/" ++ name) = .ok format) :
    ofFileName (FileName.join directory name) = .ok format := by
  have nonempty := components_ne_nil_of_tilde supported
  have tilde : FileName.extension ("~/" ++ name) = FileName.extension name :=
    FileName.extension_of_components (FileName.components_tilde name) nonempty
  rw [ofFileName, tilde] at supported
  by_cases rooted : name.toList.head? = some '/'
  · rw [FileName.join_of_rooted rooted]
    exact supported
  · rw [ofFileName, FileName.extension_of_components (FileName.components_join h rooted) nonempty]
    exact supported

theorem ofFileName_eq_error_iff {name : String} {e : Error} :
    ofFileName name = .error e ↔ ofExtension? (FileName.extension name) = none ∧
      e = .unknownExtension (FileName.extension name) := by
  rw [ofFileName, ofExtension]
  cases ofExtension? (FileName.extension name) <;> simp [eq_comm]

end Format

namespace Config

variable {fs : FileSystem} {name : String} {e : Error}

/-- A name is refused because of the home directory that it is in or because of its extension. -/
theorem openLazily_eq_error_iff :
    openLazily fs name = .error e ↔
      (fs.home = none ∧ ['~', '/'] <+: name.toList ∧ e = .unknownHome name) ∨
      ∃ path, FileName.expand fs.home name = .ok path ∧
        Format.ofExtension? (FileName.extension path) = none ∧
        e = .unknownExtension (FileName.extension path) := by
  rw [openLazily, ← FileName.expand_eq_error_iff]
  cases FileName.expand fs.home name with
  | error e' => simp [Except.bind]
  | ok path =>
    simp only [Except.bind, reduceCtorEq, false_or, Except.ok.injEq, exists_eq_left']
    rw [← Format.ofFileName_eq_error_iff]
    cases Format.ofFileName path <;> simp [Except.map]

/-- A name that is refused is refused alike whatever the file is wanted for. -/
theorem refused_alike (refused : openLazily fs name = .error e) :
    openFile fs name = .error e ∧ exportJson fs name = .error e := by
  have atOnce : openFile fs name = .error e := by rw [openFile, refused, Except.bind]
  constructor
  · exact atOnce
  · rw [exportJson, atOnce, Except.bind]

end Config

/-- A name behind `~/` that has a format is opened below the home directory, unless it begins at the
root, and then it is opened there. Where the home directory is not known, no such name is opened.
Every other name is opened as it is. -/
theorem openLazily_home (fs : FileSystem) :
    (∀ home : String, fs.home = some home → home ≠ "" →
      ∀ (name : String) (format : Format), Format.ofFileName ("~/" ++ name) = .ok format →
        ∃ c path, Config.openLazily fs ("~/" ++ name) = .ok c ∧ c.fileName? = some path ∧
          c.format = format ∧ c.cached = none ∧
          (name.toList.head? ≠ some '/' → FileName.parts path.toList =
            FileName.parts home.toList ++ FileName.components name.toList) ∧
          (name.toList.head? = some '/' → path = name)) ∧
    (fs.home = none → ∀ name : String,
      Config.openLazily fs ("~/" ++ name) = .error (.unknownHome ("~/" ++ name))) ∧
    ∀ name : String, ¬['~', '/'] <+: name.toList →
      Config.openLazily fs name = (Format.ofFileName name).map fun format =>
        { source := .file name, format, cached := none } := by
  refine ⟨?_, ?_, ?_⟩
  · intro home known nonempty name format supported
    have opened : Config.openLazily fs ("~/" ++ name) =
        .ok { source := .file (FileName.join home name), format, cached := none } := by
      rw [Config.openLazily, known, FileName.expand_tilde_some, Except.bind,
        Format.ofFileName_join nonempty supported]
      rfl
    exact ⟨_, _, opened, rfl, rfl, rfl, FileName.parts_join nonempty, FileName.join_of_rooted⟩
  · intro unknown name
    rw [Config.openLazily, unknown, FileName.expand_tilde_none]
    rfl
  · intro name plain
    rw [Config.openLazily, FileName.expand_of_not_tilde plain]
    rfl

/-- A home directory with a slash at its end, a way up and an empty component behind it, a name at
the root, a tilde without a slash, and a home directory that is not known. -/
theorem openLazily_home_slashes :
    ∃ world homeless : FileSystem, world.home = some "./h/" ∧ homeless.home = none ∧
      Format.ofFileName ("~/" ++ "../a//c.YML") = .ok .yaml ∧
      Format.ofFileName ("~/" ++ "/c.json") = .ok .json ∧
      (∃ c path, Config.openLazily world "~/../a//c.YML" = .ok c ∧ c.fileName? = some path ∧
        FileName.parts path.toList =
          [['.'], ['h'], ['.', '.'], ['a'], ['c', '.', 'Y', 'M', 'L']]) ∧
      (∃ c, Config.openLazily world "~//c.json" = .ok c ∧ c.fileName? = some "/c.json") ∧
      Config.openLazily homeless "~/c.json" = .error (.unknownHome "~/c.json") ∧
      ¬['~', '/'] <+: "~c.yml".toList ∧
      Config.openLazily world "~c.yml" =
        .ok { source := .file "~c.yml", format := .yaml, cached := none } := by
  obtain ⟨below, -, plain⟩ := openLazily_home ⟨[], some "./h/"⟩
  obtain ⟨-, unknown, -⟩ := openLazily_home ⟨[], none⟩
  have yaml : Format.ofFileName ("~/" ++ "../a//c.YML") = .ok .yaml := rfl
  have json : Format.ofFileName ("~/" ++ "/c.json") = .ok .json := rfl
  have tilde : ¬['~', '/'] <+: "~c.yml".toList := by decide
  obtain ⟨c, path, opened, name, -, -, inside, -⟩ := below _ rfl (by decide) _ _ yaml
  obtain ⟨c', path', opened', name', -, -, -, rooted⟩ := below _ rfl (by decide) _ _ json
  refine ⟨_, _, rfl, rfl, yaml, json, ⟨c, path, opened, name, ?_⟩, ⟨c', opened', ?_⟩,
    unknown rfl "c.json", tilde, ?_⟩
  · exact inside (by decide)
  · rw [← rooted rfl]
    exact name'
  · exact plain _ tilde

/-- A name that begins at the root leads out of the home directory. -/
theorem rooted_not_in_home :
    ∃ (world : FileSystem) (home : String), world.home = some home ∧ home ≠ "" ∧
      Format.ofFileName ("~/" ++ "/x.json") = .ok .json ∧
      ¬∃ c path, Config.openLazily world ("~/" ++ "/x.json") = .ok c ∧ c.fileName? = some path ∧
        FileName.parts home.toList <+: FileName.parts path.toList := by
  refine ⟨⟨[], some "home"⟩, "home", rfl, by decide, rfl, ?_⟩
  rintro ⟨c, path, opened, name, inside⟩
  obtain rfl := Except.ok.inj opened
  obtain rfl := Option.some.inj name
  exact absurd inside (by decide)

end ConfigTree
