import Mathlib.Data.List.Nodup
import MiniLisp.CommandLine.Outcome
import MiniLisp.Proofs.Token.Spelling

/-!
How the command is called, and that it does then what the functions behind it do. An invocation
gives a text, or names a file that holds it, with options in any order on either side or all in
front of two dashes. However it is written, the command reads it as the same job, and the outcome of
the job is that of reading or evaluating the text within the limit.
-/

namespace MiniLisp.CommandLine

/-! ### Invocations -/

inductive Setting where
  | fromFile
  | parseOnly
  | limit (n : Nat)
  deriving DecidableEq

inductive OptionName where
  | file
  | parseOnly
  | maxDepth
  deriving DecidableEq

def Setting.option : Setting → OptionName
  | fromFile => .file
  | parseOnly => .parseOnly
  | limit _ => .maxDepth

@[simp] theorem Setting.option_eq_file {x : Setting} : x.option = .file ↔ x = .fromFile := by
  cases x <;> simp [option]

@[simp] theorem Setting.option_eq_parseOnly {x : Setting} :
    x.option = .parseOnly ↔ x = .parseOnly := by
  cases x <;> simp [option]

def Distinct (settings : List Setting) : Prop :=
  (settings.map Setting.option).Nodup

instance (settings : List Setting) : Decidable (Distinct settings) :=
  inferInstanceAs (Decidable (settings.map Setting.option).Nodup)

/-- `SpellsLimit n text` says that `text` spells `n`, which fits in 64 bits, with ASCII digits and
perhaps a plus sign in front. -/
def SpellsLimit (n : Nat) (text : String) : Prop :=
  n < 2 ^ 64 ∧ ∃ digits, (text.toList = digits ∨ text.toList = '+' :: digits) ∧ digits ≠ [] ∧
    (∀ c ∈ digits, c.isDigit = true) ∧ Decimal.positional digits = n

/-- `Written settings arguments` says that the arguments are options for these settings in order. -/
inductive Written : List Setting → List String → Prop where
  | nil : Written [] []
  | file {settings : List Setting} {argument : String} {arguments : List String} :
      argument ∈ ["-f", "--file"] → Written settings arguments →
        Written (.fromFile :: settings) (argument :: arguments)
  | parseOnly {settings : List Setting} {argument : String} {arguments : List String} :
      argument ∈ ["-p", "--parse-only"] → Written settings arguments →
        Written (.parseOnly :: settings) (argument :: arguments)
  | fileParseOnly {settings : List Setting} {arguments : List String} :
      Written settings arguments →
        Written (.fromFile :: .parseOnly :: settings) ("-fp" :: arguments)
  | parseOnlyFile {settings : List Setting} {arguments : List String} :
      Written settings arguments →
        Written (.parseOnly :: .fromFile :: settings) ("-pf" :: arguments)
  | limit {settings : List Setting} {n : Nat} {text : String} {arguments : List String} :
      SpellsLimit n text → Written settings arguments →
        Written (.limit n :: settings) ("--max-depth" :: text :: arguments)
  | limitJoined {settings : List Setting} {n : Nat} {text : String} {arguments : List String} :
      SpellsLimit n text → Written settings arguments →
        Written (.limit n :: settings) (("--max-depth=" ++ text) :: arguments)

structure Describes (settings : List Setting) (job : Job) : Prop where
  fromFile : job.fromFile = true ↔ .fromFile ∈ settings
  parseOnly : job.parseOnly = true ↔ .parseOnly ∈ settings
  limit : ∀ n, .limit n ∈ settings → job.limit = n
  default : (∀ n, .limit n ∉ settings) → job.limit = 256

/-- Whether an argument is no option: it does not begin with a dash or is a dash alone. -/
def Positional (text : String) : Prop :=
  text.toList.head? ≠ some '-' ∨ text = "-"

inductive Invokes (job : Job) : List String → Prop where
  | around {before after : List Setting} {first last : List String} :
      Written before first → Written after last → Distinct (before ++ after) →
      Describes (before ++ after) job → Positional job.contents →
        Invokes job (first ++ job.contents :: last)
  /-- Options in front of two dashes, and any text or file name behind them. -/
  | behindDashes {settings : List Setting} {options : List String} :
      Written settings options → Distinct settings → Describes settings job →
        Invokes job (options ++ ["--", job.contents])

/-! ### Single arguments -/

theorem ofString_of_positional {text : String} (h : Positional text) :
    Argument.ofString text = .plain text := by
  rcases h with h | rfl
  · unfold Argument.ofString
    split
    · next htext => simp [htext] at h
    · next htext => simp [htext] at h
    · next htext => simp [htext] at h
    · rfl
  · rfl

theorem ofString_limitJoined (text : String) :
    Argument.ofString ("--max-depth=" ++ text) = .long "max-depth" (some text) := by
  have htext : ("--max-depth=" ++ text).toList = "--max-depth=".toList ++ text.toList :=
    String.toList_append
  simp [Argument.ofString, htext]

namespace SpellsLimit

variable {n : Nat} {text : String}

theorem limit?_eq (h : SpellsLimit n text) : limit? text = some n := by
  obtain ⟨hlt, digits, htext, hne, hdigits, rfl⟩ := h
  have hall : digits.all Char.isDigit = true := List.all_eq_true.mpr hdigits
  have hfits : Decimal.value digits < UInt64.size := by
    rwa [Decimal.value_eq_positional]
  have hvalid : digits ≠ [] ∧ digits.all Char.isDigit ∧ Decimal.value digits < UInt64.size :=
    ⟨hne, hall, hfits⟩
  rw [← Decimal.value_eq_positional]
  unfold limit?
  rcases htext with htext | htext
  · -- A run of digits does not begin with a plus sign.
    have hplus : ∀ rest, digits ≠ '+' :: rest := by
      rintro rest rfl
      exact absurd (hdigits '+' List.mem_cons_self) (by decide)
    simp only [htext, if_pos hvalid]
  · simp only [htext, if_pos hvalid]

/-- Neither a digit nor a plus sign is a dash, so the value of an option is no option itself. -/
theorem positional (h : SpellsLimit n text) : Positional text := by
  obtain ⟨-, digits, htext, hne, hdigits, -⟩ := h
  refine .inl fun hhead => ?_
  rcases htext with htext | htext
  · rw [htext] at hhead
    exact absurd (hdigits '-' (List.mem_of_mem_head? hhead)) (by decide)
  · simp [htext] at hhead

end SpellsLimit

/-! ### Settings that grow -/

namespace Settings

variable {s : Settings} {settings : List Setting}

def put (s : Settings) : Setting → Settings
  | .fromFile => { s with fromFile := true }
  | .parseOnly => { s with parseOnly := true }
  | .limit n => { s with limit := some n }

def has (s : Settings) : OptionName → Bool
  | .file => s.fromFile
  | .parseOnly => s.parseOnly
  | .maxDepth => s.limit.isSome

theorem has_put (s : Settings) (x : Setting) (o : OptionName) :
    (s.put x).has o = (s.has o || x.option == o) := by
  cases x <;> cases o <;> simp [put, has, Setting.option]

/-- `Fresh s settings` says that the settings use each option once, and none that `s` has used. -/
def Fresh (s : Settings) (settings : List Setting) : Prop :=
  Distinct settings ∧ ∀ x ∈ settings, s.has x.option = false

theorem Fresh.put {x : Setting} (h : s.Fresh (x :: settings)) :
    s.has x.option = false ∧ (s.put x).Fresh settings := by
  obtain ⟨hdistinct, hunused⟩ := h
  have hnodup := List.nodup_cons.mp hdistinct
  refine ⟨hunused x List.mem_cons_self, hnodup.2, fun y hy => ?_⟩
  have hne : x.option ≠ y.option := fun heq =>
    hnodup.1 (heq ▸ List.mem_map_of_mem hy)
  rw [has_put, hunused y (List.mem_cons_of_mem x hy)]
  simpa using hne

theorem Fresh.append {others : List Setting} (h : s.Fresh (settings ++ others)) :
    s.Fresh settings ∧ (settings.foldl Settings.put s).Fresh others := by
  induction settings generalizing s with
  | nil => exact ⟨⟨List.nodup_nil, by simp⟩, h⟩
  | cons x settings ih =>
      refine ⟨⟨?_, ?_⟩, (ih h.put.2).2⟩
      · have hdistinct := h.1
        rw [Distinct, List.map_append] at hdistinct
        exact hdistinct.of_append_left
      · exact fun y hy => h.2 y (List.mem_append_left _ hy)

theorem fresh_initial (h : Distinct settings) : initial.Fresh settings :=
  ⟨h, fun x _ => by cases x <;> rfl⟩

theorem setFromFile_eq (h : s.has .file = false) : s.setFromFile = .ok (s.put .fromFile) := by
  simp_all [setFromFile, has, put]

theorem setParseOnly_eq (h : s.has .parseOnly = false) :
    s.setParseOnly = .ok (s.put .parseOnly) := by
  simp_all [setParseOnly, has, put]

theorem setLimit_eq {n : Nat} {text : String} (h : s.has .maxDepth = false)
    (htext : SpellsLimit n text) : s.setLimit text = .ok (s.put (.limit n)) := by
  have hlimit : s.limit = none := by simpa [has] using h
  simp [setLimit, htext.limit?_eq, hlimit, put]

/-! ### One argument read -/

theorem foldlM_setLetter_cons {t : Settings} (letter : Char) (letters : List Char)
    (h : s.setLetter letter = .ok t) :
    (letter :: letters).foldlM setLetter s = letters.foldlM setLetter t := by
  rw [List.foldlM_cons, h]
  rfl

theorem read_short {argument : String} {t : Settings} (letters : List Char) (rest : List String)
    (hargument : Argument.ofString argument = .short letters)
    (hset : letters.foldlM setLetter s = .ok t) : s.read (argument :: rest) = t.read rest := by
  rw [read.eq_def]
  simp only [hargument, hset]
  rfl

theorem read_separator (arguments : List String) :
    s.read ("--" :: arguments) = arguments.foldlM setContents s :=
  rfl

theorem setContents_eq (h : s.contents = none) (text : String) :
    s.setContents text = .ok { s with contents := some text } := by
  simp [setContents, h]

theorem read_plain {argument : String} {t : Settings} (rest : List String)
    (hargument : Positional argument) (hset : s.setContents argument = .ok t) :
    s.read (argument :: rest) = t.read rest := by
  rw [read.eq_def]
  simp only [ofString_of_positional hargument, hset]
  rfl

theorem read_long {argument : String} {t : Settings} (name : String) (value : Option String)
    (rest : List String) (hargument : Argument.ofString argument = .long name value)
    (hvalue : name = "max-depth" → value ≠ none) (hset : s.setLong name value = .ok t) :
    s.read (argument :: rest) = t.read rest := by
  rw [read.eq_def]
  simp only [hargument, hset]
  rfl

theorem read_maxDepth {text : String} {t : Settings} (rest : List String)
    (htext : Positional text) (hset : s.setLimit text = .ok t) :
    s.read ("--max-depth" :: text :: rest) = t.read rest := by
  have hargument : Argument.ofString "--max-depth" = .long "max-depth" none := by decide
  rw [read.eq_def]
  simp only [hargument, ofString_of_positional htext, hset]
  rfl

/-! ### All arguments read -/

/-- Options change the settings one after another, and reading goes on behind them. -/
theorem read_of_written {arguments : List String} (h : Written settings arguments)
    (hfresh : s.Fresh settings) (rest : List String) :
    s.read (arguments ++ rest) = (settings.foldl put s).read rest := by
  induction h generalizing s with
  | nil => rfl
  | file hargument _ ih =>
      obtain ⟨hunused, hfresh⟩ := hfresh.put
      have hset := setFromFile_eq hunused
      rw [List.foldl_cons, ← ih hfresh]
      simp only [List.mem_cons, List.not_mem_nil, or_false] at hargument
      rcases hargument with rfl | rfl
      · exact read_short ['f'] _ (by decide) (foldlM_setLetter_cons 'f' [] hset)
      · exact read_long "file" none _ (by decide) (by simp) hset
  | parseOnly hargument _ ih =>
      obtain ⟨hunused, hfresh⟩ := hfresh.put
      have hset := setParseOnly_eq hunused
      rw [List.foldl_cons, ← ih hfresh]
      simp only [List.mem_cons, List.not_mem_nil, or_false] at hargument
      rcases hargument with rfl | rfl
      · exact read_short ['p'] _ (by decide) (foldlM_setLetter_cons 'p' [] hset)
      · exact read_long "parse-only" none _ (by decide) (by simp) hset
  | fileParseOnly _ ih =>
      obtain ⟨hfile, hfresh⟩ := hfresh.put
      obtain ⟨hparse, hfresh⟩ := hfresh.put
      rw [List.foldl_cons, List.foldl_cons, ← ih hfresh]
      refine read_short ['f', 'p'] _ (by decide) ?_
      rw [foldlM_setLetter_cons 'f' ['p'] (setFromFile_eq hfile)]
      exact foldlM_setLetter_cons 'p' [] (setParseOnly_eq hparse)
  | parseOnlyFile _ ih =>
      obtain ⟨hparse, hfresh⟩ := hfresh.put
      obtain ⟨hfile, hfresh⟩ := hfresh.put
      rw [List.foldl_cons, List.foldl_cons, ← ih hfresh]
      refine read_short ['p', 'f'] _ (by decide) ?_
      rw [foldlM_setLetter_cons 'p' ['f'] (setParseOnly_eq hparse)]
      exact foldlM_setLetter_cons 'f' [] (setFromFile_eq hfile)
  | limit htext _ ih =>
      obtain ⟨hunused, hfresh⟩ := hfresh.put
      rw [List.foldl_cons, ← ih hfresh]
      exact read_maxDepth _ htext.positional (setLimit_eq hunused htext)
  | limitJoined htext _ ih =>
      obtain ⟨hunused, hfresh⟩ := hfresh.put
      rw [List.foldl_cons, ← ih hfresh]
      exact read_long "max-depth" _ _ (ofString_limitJoined _) (fun _ => nofun)
        (setLimit_eq hunused htext)

theorem foldl_put_contents (s : Settings) (contents : Option String) (settings : List Setting) :
    settings.foldl put { s with contents := contents } =
      { settings.foldl put s with contents := contents } := by
  induction settings generalizing s with
  | nil => rfl
  | cons x settings ih =>
      rw [List.foldl_cons, List.foldl_cons, ← ih (s.put x)]
      cases x <;> rfl

theorem contents_foldl_put (s : Settings) (settings : List Setting) :
    (settings.foldl put s).contents = s.contents := by
  have h := foldl_put_contents s s.contents settings
  rw [h]

theorem has_foldl_put (s : Settings) (settings : List Setting) (o : OptionName) :
    (settings.foldl put s).has o = true ↔ s.has o = true ∨ ∃ x ∈ settings, x.option = o := by
  induction settings generalizing s with
  | nil => simp
  | cons x settings ih =>
      rw [List.foldl_cons, ih, has_put]
      simp [or_assoc]

theorem limit_foldl_put_of_notMem (h : ∀ n, Setting.limit n ∉ settings) :
    (settings.foldl put s).limit = s.limit := by
  induction settings generalizing s with
  | nil => rfl
  | cons x settings ih =>
      rw [List.foldl_cons, ih fun n hn => h n (List.mem_cons_of_mem x hn)]
      cases x with
      | limit n => exact absurd List.mem_cons_self (h n)
      | fromFile => rfl
      | parseOnly => rfl

theorem limit_foldl_put_of_mem {n : Nat} (h : s.Fresh settings)
    (hmem : Setting.limit n ∈ settings) : (settings.foldl put s).limit = some n := by
  induction settings generalizing s with
  | nil => cases hmem
  | cons x settings ih =>
      obtain ⟨-, hfresh⟩ := h.put
      rcases List.mem_cons.mp hmem with rfl | hmem
      · rw [List.foldl_cons, limit_foldl_put_of_notMem]
        · rfl
        · exact fun m hm => absurd (hfresh.2 _ hm) (by simp [has, put, Setting.option])
      · exact ih hfresh hmem

end Settings

namespace Job

variable {job : Job} {arguments : List String}

theorem ofArguments_of_read {settings : List Setting} (hdistinct : Distinct settings)
    (hdescribes : Describes settings job)
    (hread : Settings.initial.read arguments =
      .ok { settings.foldl Settings.put Settings.initial with contents := some job.contents }) :
    ofArguments arguments = .ok job := by
  have hfresh := Settings.fresh_initial hdistinct
  have hfile : (settings.foldl Settings.put Settings.initial).fromFile = job.fromFile := by
    rw [Bool.eq_iff_iff, hdescribes.fromFile]
    refine (Settings.has_foldl_put Settings.initial settings .file).trans ?_
    simp [Settings.initial, Settings.has]
  have hparse : (settings.foldl Settings.put Settings.initial).parseOnly = job.parseOnly := by
    rw [Bool.eq_iff_iff, hdescribes.parseOnly]
    refine (Settings.has_foldl_put Settings.initial settings .parseOnly).trans ?_
    simp [Settings.initial, Settings.has]
  have hlimit : (settings.foldl Settings.put Settings.initial).limit.getD defaultLimit =
      job.limit := by
    by_cases hgiven : ∃ n, Setting.limit n ∈ settings
    · obtain ⟨n, hn⟩ := hgiven
      rw [Settings.limit_foldl_put_of_mem hfresh hn, hdescribes.limit n hn]
      rfl
    · have hnone : ∀ n, Setting.limit n ∉ settings := fun n hn => hgiven ⟨n, hn⟩
      rw [Settings.limit_foldl_put_of_notMem hnone, hdescribes.default hnone]
      rfl
  unfold ofArguments
  rw [hread]
  change Except.ok (Job.mk _ _ _ _) = _
  rw [hfile, hparse, hlimit]

/-- However a job is asked for, the arguments are read as that job. -/
theorem ofArguments_of_invokes (h : Invokes job arguments) : ofArguments arguments = .ok job := by
  cases h with
  | @around before after first last hfirst hlast hdistinct hdescribes hcontents =>
      refine ofArguments_of_read hdistinct hdescribes ?_
      obtain ⟨hbefore, hafter⟩ := (Settings.fresh_initial hdistinct).append
      let s := before.foldl Settings.put Settings.initial
      let t : Settings := { s with contents := some job.contents }
      have hnone : s.contents = none := Settings.contents_foldl_put Settings.initial before
      -- Whether an option has been used does not depend on the contents.
      have hfresh : t.Fresh after := ⟨hafter.1, fun x hx => by
        rw [← hafter.2 x hx]
        cases x <;> rfl⟩
      calc Settings.initial.read (first ++ job.contents :: last)
        _ = s.read (job.contents :: last) := Settings.read_of_written hfirst hbefore _
        _ = t.read last := Settings.read_plain last hcontents (Settings.setContents_eq hnone _)
        _ = (after.foldl Settings.put t).read [] := by
            rw [← Settings.read_of_written hlast hfresh, List.append_nil]
        _ = .ok { (before ++ after).foldl Settings.put Settings.initial with
              contents := some job.contents } := by
            rw [Settings.foldl_put_contents, List.foldl_append]
            rfl
  | @behindDashes settings options hoptions hdistinct hdescribes =>
      refine ofArguments_of_read hdistinct hdescribes ?_
      have hnone : (settings.foldl Settings.put Settings.initial).contents = none :=
        Settings.contents_foldl_put Settings.initial settings
      rw [Settings.read_of_written hoptions (Settings.fresh_initial hdistinct),
        Settings.read_separator, List.foldlM_cons, Settings.setContents_eq hnone]
      rfl

end Job

/-! ### The outcome -/

def Outcome.report : Except String String → Outcome
  | .ok text => ⟨0, text ++ "\n", ""⟩
  | .error message => ⟨1, "", message ++ "\n"⟩

theorem Job.outcome_eq_report (job : Job) (source : String) :
    job.outcome source = .report
      (if job.parseOnly then
        ((parse job.limit source).map Value.text).mapError ParseError.message
      else ((evaluate job.limit source).map Value.text).mapError EvalError.message) := by
  unfold outcome result evaluate
  cases parse job.limit source with
  | error e => cases job.parseOnly <;> rfl
  | ok v =>
      cases job.parseOnly with
      | true => rfl
      | false => cases heval : eval v <;> simp [heval, Outcome.report, Except.map, Except.mapError]

theorem fromUTF8?_toByteArray (text : String) :
    String.fromUTF8? text.toByteArray = some text := by
  rw [String.fromUTF8?, dif_pos text.isValidUTF8]
  rfl

/-- However the command is called, it reports what the source text is read as, or what it evaluates
to, within the limit. The source text is given, or a file holds it. -/
theorem execute_of_invokes {m : Type → Type} [Monad m] [LawfulMonad m]
    (readFile : String → m (Option ByteArray)) {job : Job} {arguments : List String}
    (h : Invokes job arguments) (source : String)
    (hsource : if job.fromFile then readFile job.contents = pure (some source.toUTF8)
      else source = job.contents) :
    execute readFile arguments = pure (.report
      (if job.parseOnly then
        ((parse job.limit source).map Value.text).mapError ParseError.message
      else ((evaluate job.limit source).map Value.text).mapError EvalError.message)) := by
  rw [← Job.outcome_eq_report]
  simp only [execute, Job.ofArguments_of_invokes h]
  cases hfile : job.fromFile with
  | true =>
      have hread : readFile job.contents = pure (some source.toUTF8) := by
        simpa [hfile] using hsource
      simp [hread, fromUTF8?_toByteArray]
  | false =>
      have htext : source = job.contents := by simpa [hfile] using hsource
      simp [htext]

/-- Both letters in one argument, a limit with a sign and zeros in front, and a file whose name
begins with dashes. -/
theorem execute_two_letters_file :
    Invokes ⟨true, true, 2, "--in"⟩ ["--max-depth=+002", "-pf", "--", "--in"] ∧
      execute (m := Id) (fun name => if name = "--in" then some "'a".toUTF8 else none)
        ["--max-depth=+002", "-pf", "--", "--in"] = pure ⟨0, "(quote a)\n", ""⟩ := by
  have hlimit : SpellsLimit 2 "+002" :=
    ⟨by decide, ['0', '0', '2'], .inr (by decide), by decide, by simp, by decide⟩
  have hinvokes : Invokes ⟨true, true, 2, "--in"⟩ ["--max-depth=+002", "-pf", "--", "--in"] :=
    .behindDashes (.limitJoined hlimit (.parseOnlyFile .nil)) (by decide)
      ⟨by simp, by simp, by simp, by simp⟩
  refine ⟨hinvokes, ?_⟩
  rw [execute_of_invokes _ hinvokes "'a" (by rfl)]
  exact congrArg pure (by decide +kernel)

end MiniLisp.CommandLine
