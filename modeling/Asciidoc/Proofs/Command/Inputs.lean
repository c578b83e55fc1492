import Asciidoc.Command.Run
import Asciidoc.Proofs.Files.Append

/-!
# The inputs of a run

A run comes to its inputs one after the other. `Command.met` lists them, each with the session in
which the run comes to it, so that what an input is found to be is told without the documents, codes
and texts that the run gathers. An input is hidden if nobody can tell what it is. In the interchange
format the run comes to an end exactly if no input is hidden and all that can be read are converted
(`Command.convertAll_eq`, `Command.converts_of_convertAll_eq_ok`), and then its documents are those
of the inputs that can be read, in order, its code tells whether there was another, and nothing has
been printed. The first hidden input ends the run, and nothing has been printed then either
(`Command.convertAll_of_hidden`).

What a run changes while it goes through its inputs is what is left of the standard input and its
log file (`Command.leaves_of_mem_met`).
-/

namespace Asciidoc.Command

open Text

/-! ## Inputs -/

/-- An input of a run with the session in which the run comes to it. -/
structure Input where
  /-- The path as it was given. -/
  path : Text
  /-- The session. -/
  session : Session

namespace Input

/-- The text that an input is found to have. -/
def text (x : Input) : Except InputStop Text := (x.session.read x.path).map (·.1)

/-- Whether an input can be read. -/
def isReadable (x : Input) : Bool := x.text.isOk

/-- Nobody can tell what an input is. -/
def IsHidden (x : Input) : Prop := ∃ fault, x.text = .error (.hidden fault)

variable (rules : Rules)

/-- The document of an input, with the path to be shown. -/
def document? (x : Input) : Option (Text × Node Text) :=
  x.text.toOption.bind fun t =>
    (Conversion.ofText rules t).result.toOption.map fun root => (shownInput x.path, root)

/-- An input is converted if it can be read. -/
def Converts (x : Input) : Prop :=
  ∀ t, x.text = .ok t → ∃ root, (Conversion.ofText rules t).result = .ok root

end Input

section Met

variable (rules : Rules) (r : Reporting)

/-- The session once an input has been read and converted, or complained about. -/
def Input.past (x : Input) : Session :=
  match x.session.read x.path with
  | .error (.hidden _) => x.session
  | .error (.refused fault) => x.session.complain ("Error: ".toList ++ fault.message x.path)
  | .ok (t, s) => s.report r (Conversion.ofText rules t).log

/-- Inputs in order, each with the session in which a run comes to it, if it comes that far. -/
def met : Session → List Text → List Input
  | _, [] => []
  | s, path :: rest => ⟨path, s⟩ :: met (Input.past rules r ⟨path, s⟩) rest

/-- The session once a run has gone through inputs. -/
def pastAll (s : Session) (inputs : List Text) : Session :=
  inputs.foldl (fun s path => Input.past rules r ⟨path, s⟩) s

end Met

variable {rules : Rules} {r : Reporting} {s session : Session} {inputs : List Text} {path : Text}

theorem map_path_met (rules : Rules) (r : Reporting) (s : Session) (inputs : List Text) :
    (met rules r s inputs).map (·.path) = inputs := by
  induction inputs generalizing s with
  | nil => rfl
  | cons path rest ih => rw [met, List.map_cons, ih]

/-! ## Reading -/

/-- An input that is read has a text. -/
theorem Input.text_of_read {x : Input} {t : Text} (h : x.session.read x.path = .ok (t, s)) :
    x.text = .ok t := by
  rw [text, h]
  rfl

theorem Input.text_of_read_error {x : Input} {stop : InputStop}
    (h : x.session.read x.path = .error stop) : x.text = .error stop := by
  rw [text, h]
  rfl

theorem Input.past_of_read {x : Input} {t : Text} (h : x.session.read x.path = .ok (t, s)) :
    x.past rules r = s.report r (Conversion.ofText rules t).log := by
  rw [past, h]

theorem Input.past_of_read_error {x : Input} {fault : InputFault}
    (h : x.session.read x.path = .error (.refused fault)) :
    x.past rules r = x.session.complain ("Error: ".toList ++ fault.message x.path) := by
  rw [past, h]

/-- An input that cannot be read has no document. -/
theorem Input.document?_of_error (rules : Rules) {x : Input} {stop : InputStop}
    (h : x.text = .error stop) : x.isReadable = false ∧ x.document? rules = none := by
  rw [isReadable, document?, h]
  exact ⟨rfl, rfl⟩

/-- One that is read and converted has the document it is converted to. -/
theorem Input.document?_of_ok {x : Input} {t : Text} {root : Node Text} (h : x.text = .ok t)
    (hroot : (Conversion.ofText rules t).result = .ok root) :
    x.isReadable = true ∧ x.document? rules = some (shownInput x.path, root) := by
  rw [isReadable, document?, h]
  refine ⟨rfl, ?_⟩
  simp only [Except.toOption, Option.bind_some, hroot, Option.map_some]

/-- A file is read as it is among the files. -/
theorem Input.text_eq_textAt {x : Input} (h : x.path ≠ standardInput) :
    x.text = textAt x.session.files (Path.ofText x.path) := by
  rw [text, Session.read, if_neg h]
  cases textAt x.session.files (Path.ofText x.path) <;> rfl

theorem textAt_eq_hidden_iff {files : FileTree} {p : Path} {fault : LookFault} :
    textAt files p = .error (.hidden fault) ↔ files.entry p = .hidden fault := by
  rw [textAt.eq_def]
  cases files.entry p with
  | file bytes =>
    dsimp only
    cases Utf8.lines? bytes <;> simp
  | _ => simp

/-- An input is hidden only if its path or a name of it is too long or if a directory lets nobody
through. -/
theorem Input.IsHidden.cause {x : Input} (h : x.IsHidden) :
    FileTree.isTooLong (Path.ofText x.path) = true ∨
      (∃ name ∈ (Path.ofText x.path).parts, FileTree.longestName < Utf8.size name) ∨
      ∃ names, x.session.files.lookup? names = some .closed := by
  obtain ⟨fault, hx⟩ := h
  have hpath : x.path ≠ standardInput := by
    intro hpath
    rw [text, Session.read, if_pos hpath] at hx
    cases hx
  rw [text_eq_textAt hpath, textAt_eq_hidden_iff] at hx
  exact FileTree.entry_eq_hidden hx

theorem textAt_of_entry {files : FileTree} {p : Path} {bytes : ByteArray} {t : Text}
    (hentry : files.entry p = .file bytes) (ht : Utf8.lines? bytes = some t) :
    textAt files p = .ok t := by
  simp only [textAt, hentry, ht]

/-- Reading leaves the files and what was printed. -/
theorem Session.read_eq_ok {t : Text} (h : session.read path = .ok (t, s)) :
    s.files = session.files ∧ s.out = session.out := by
  rw [Session.read] at h
  split at h
  · obtain ⟨-, rfl⟩ := Prod.mk.inj (Except.ok.inj h)
    exact ⟨rfl, rfl⟩
  · cases hfile : textAt session.files (Path.ofText path) with
    | error fault =>
      rw [hfile] at h
      cases h
    | ok found =>
      rw [hfile] at h
      obtain ⟨-, rfl⟩ := Prod.mk.inj (Except.ok.inj h)
      exact ⟨rfl, rfl⟩

/-! ## What is printed meanwhile -/

@[simp] theorem Session.out_report (s : Session) (r : Reporting) (records : List Log.Record) :
    (s.report r records).out = s.out :=
  rfl

theorem Input.out_past (rules : Rules) (r : Reporting) (x : Input) :
    (x.past rules r).out = x.session.out := by
  rw [past]
  cases hread : x.session.read x.path with
  | error stop => cases stop <;> rfl
  | ok found => exact (Session.read_eq_ok hread).2

theorem out_pastAll (rules : Rules) (r : Reporting) (s : Session) (inputs : List Text) :
    (pastAll rules r s inputs).out = s.out := by
  induction inputs generalizing s with
  | nil => rfl
  | cons path rest ih => exact (ih _).trans (Input.out_past rules r ⟨path, s⟩)

/-! ## Going through the inputs -/

/-- A conversion of a text is never refused for its settings. -/
theorem result_ofText_ne_notSettings (rules : Rules) (t typeName : Text) :
    (Conversion.ofText rules t).result ≠ .error (.notSettings typeName) := by
  rw [Conversion.ofText]
  cases (Element.ofText rules.reading rules.marker t).document with
  | error fault => exact nofun
  | ok root =>
    dsimp only [Conversion.ofElement, Conversion.ofLosses]
    split <;> exact nofun

/-- A step of a run past an input that is read and converted. -/
theorem convertAll_of_read {p : Progressing} {t : Text} {root : Node Text}
    (hread : p.session.read path = .ok (t, s))
    (hroot : (Conversion.ofText rules t).result = .ok root) (rest : List Text) :
    convertAll rules r .interchange p (path :: rest)
      = convertAll rules r .interchange
        { p with
          session := Input.past rules r ⟨path, p.session⟩
          documents := p.documents ++ [(shownInput path, root)] } rest := by
  rw [convertAll, hread, Input.past_of_read (x := ⟨path, p.session⟩) hread]
  simp only [hroot]

/-- A step past one that cannot be read. -/
theorem convertAll_of_read_error {p : Progressing} {fault : InputFault}
    (hread : p.session.read path = .error (.refused fault)) (rest : List Text) :
    convertAll rules r .interchange p (path :: rest)
      = convertAll rules r .interchange
        { p with session := Input.past rules r ⟨path, p.session⟩, code := exitInput } rest := by
  rw [convertAll, hread, Input.past_of_read_error (x := ⟨path, p.session⟩) hread]

/-- One that is hidden ends the run. -/
theorem convertAll_of_read_hidden {p : Progressing} {fault : LookFault}
    (hread : p.session.read path = .error (.hidden fault)) (rest : List Text) :
    convertAll rules r .interchange p (path :: rest) = (.error (.input fault), p.session) := by
  rw [convertAll, hread]

/-- A step past an input that is not hidden, and is converted if it can be read: its document is
added if it has one, and otherwise the run gets a code of its own. -/
theorem convertAll_cons {p : Progressing} (hseen : ¬(⟨path, p.session⟩ : Input).IsHidden)
    (hconverts : (⟨path, p.session⟩ : Input).Converts rules) (rest : List Text) :
    convertAll rules r .interchange p (path :: rest)
      = convertAll rules r .interchange
        { session := Input.past rules r ⟨path, p.session⟩
          code := if (⟨path, p.session⟩ : Input).isReadable then p.code else exitInput
          documents := p.documents ++ ((⟨path, p.session⟩ : Input).document? rules).toList }
        rest := by
  cases hread : p.session.read path with
  | error stop =>
    have htext := Input.text_of_read_error (x := ⟨path, p.session⟩) hread
    obtain ⟨hreadable, hnone⟩ := Input.document?_of_error rules htext
    cases stop with
    | hidden fault => exact absurd ⟨fault, htext⟩ hseen
    | refused fault =>
      rw [convertAll_of_read_error hread, hreadable, hnone, if_neg Bool.false_ne_true,
        Option.toList_none, List.append_nil]
  | ok found =>
    obtain ⟨t, s⟩ := found
    have htext := Input.text_of_read (x := ⟨path, p.session⟩) hread
    obtain ⟨root, hroot⟩ := hconverts t htext
    obtain ⟨hreadable, hdocument⟩ := Input.document?_of_ok htext hroot
    rw [convertAll_of_read hread hroot, hreadable, hdocument, if_pos rfl, Option.toList_some]

/-- A run comes to an end if no input is hidden and all that can be read are converted: with their
documents, in order, and with a code of its own if there is another input. -/
theorem convertAll_eq (p : Progressing) (inputs : List Text)
    (hseen : ∀ x ∈ met rules r p.session inputs, ¬x.IsHidden)
    (h : ∀ x ∈ met rules r p.session inputs, x.Converts rules) :
    convertAll rules r .interchange p inputs
      = (.ok
          { session := pastAll rules r p.session inputs
            code := if (met rules r p.session inputs).all Input.isReadable then p.code
              else exitInput
            documents := p.documents
              ++ (met rules r p.session inputs).filterMap (Input.document? rules) },
        pastAll rules r p.session inputs) := by
  induction inputs generalizing p with
  | nil => simp [convertAll, met, pastAll]
  | cons path rest ih =>
    obtain ⟨hfirst, hothers⟩ := List.forall_mem_cons.mp h
    obtain ⟨hseen, hseenOthers⟩ := List.forall_mem_cons.mp hseen
    have hcode (others : Bool) :
        (if others = true then
          (if (⟨path, p.session⟩ : Input).isReadable = true then p.code else exitInput)
          else exitInput)
          = if ((⟨path, p.session⟩ : Input).isReadable && others) = true then p.code
            else exitInput := by
      cases others <;> simp
    have hdocuments (others : List Input) :
        ((⟨path, p.session⟩ : Input).document? rules).toList
            ++ others.filterMap (Input.document? rules)
          = (⟨path, p.session⟩ :: others).filterMap (Input.document? rules) := by
      cases hdocument : (⟨path, p.session⟩ : Input).document? rules with
      | none => exact (List.filterMap_cons_none hdocument).symm
      | some document => exact (List.filterMap_cons_some hdocument).symm
    rw [convertAll_cons hseen hfirst, ih _ hseenOthers hothers]
    dsimp only
    rw [hcode, List.append_assoc, hdocuments, met, List.all_cons, pastAll, pastAll, List.foldl_cons]

/-- And only then. -/
theorem converts_of_convertAll_eq_ok {p p' : Progressing}
    (h : (convertAll rules r .interchange p inputs).1 = .ok p') :
    ∀ x ∈ met rules r p.session inputs, ¬x.IsHidden ∧ x.Converts rules := by
  induction inputs generalizing p with
  | nil => exact nofun
  | cons path rest ih =>
    rw [met, List.forall_mem_cons]
    cases hread : p.session.read path with
    | error stop =>
      have htext := Input.text_of_read_error (x := ⟨path, p.session⟩) hread
      cases stop with
      | hidden fault =>
        rw [convertAll_of_read_hidden hread] at h
        cases h
      | refused fault =>
        rw [convertAll_of_read_error hread] at h
        exact ⟨⟨by rw [Input.IsHidden, htext]; simp, by rw [Input.Converts, htext]; exact nofun⟩,
          ih h⟩
    | ok found =>
      obtain ⟨t, s⟩ := found
      have htext := Input.text_of_read (x := ⟨path, p.session⟩) hread
      cases hroot : (Conversion.ofText rules t).result with
      | error refusal =>
        cases refusal with
        | notSettings typeName => exact absurd hroot (result_ofText_ne_notSettings _ _ _)
        | fault fault =>
          rw [convertAll, hread] at h
          simp only [hroot] at h
          cases h
      | ok root =>
        rw [convertAll_of_read hread hroot] at h
        refine ⟨⟨by rw [Input.IsHidden, htext]; simp, fun t' ht' => ?_⟩, ih h⟩
        rw [htext] at ht'
        obtain rfl := Except.ok.inj ht'
        exact ⟨root, hroot⟩

/-- The first hidden input ends the run, with nothing printed. -/
theorem convertAll_of_hidden {p : Progressing} {before after : List Input} {x : Input}
    {fault : LookFault} (hmet : met rules r p.session inputs = before ++ x :: after)
    (hseen : ∀ y ∈ before, ¬y.IsHidden) (hconverts : ∀ y ∈ before, y.Converts rules)
    (hx : x.text = .error (.hidden fault)) :
    ∃ last, convertAll rules r .interchange p inputs = (.error (.input fault), last) ∧
      last.out = p.session.out := by
  induction inputs generalizing p before with
  | nil => simp [met] at hmet
  | cons path rest ih =>
    rw [met] at hmet
    cases before with
    | nil =>
      obtain ⟨rfl, -⟩ := List.cons.inj hmet
      have hread : p.session.read path = .error (.hidden fault) := by
        rw [Input.text] at hx
        cases hread : p.session.read path with
        | error stop => simpa [hread, Except.map] using hx
        | ok found => simp [hread, Except.map] at hx
      exact ⟨p.session, convertAll_of_read_hidden hread rest, rfl⟩
    | cons y before =>
      obtain ⟨rfl, hrest⟩ := List.cons.inj hmet
      obtain ⟨hseen, hseenOthers⟩ := List.forall_mem_cons.mp hseen
      obtain ⟨hfirst, hothers⟩ := List.forall_mem_cons.mp hconverts
      rw [convertAll_cons hseen hfirst, ← Input.out_past rules r ⟨path, p.session⟩]
      exact ih hrest hseenOthers hothers

/-! ## What changes meanwhile -/

/-- Inputs are found to be the same in sessions with the same files and the same left of the
standard input. -/
theorem text_congr {x y : Input} (hpath : x.path = y.path)
    (hfiles : x.session.files = y.session.files) (hinput : x.session.input = y.session.input) :
    x.text = y.text := by
  rw [Input.text, Input.text, Session.read, Session.read, hpath, hfiles, hinput]
  split
  · rfl
  · cases textAt y.session.files (Path.ofText y.path) <;> rfl

/-- The log file opens, if there is one. -/
def Reporting.Opens (r : Reporting) (files : FileTree) : Prop :=
  ∀ names, r.file = some names → files.openFault? names = none

/-- Files are left as they were, but for the log file. -/
structure Reporting.Leaves (r : Reporting) (files files' : FileTree) : Prop where
  /-- Without a log file they are the same. -/
  same : r.file = none → files' = files
  /-- With one they differ at most in it. -/
  sameBut : ∀ names, r.file = some names → FileTree.SameBut names files files'

namespace Reporting

variable {files files' files'' : FileTree}

theorem Leaves.refl (h : r.Opens files) : r.Leaves files files :=
  ⟨fun _ => rfl, fun names hnames => .refl (h names hnames)⟩

theorem Leaves.trans (h : r.Leaves files files') (h' : r.Leaves files' files'') :
    r.Leaves files files'' :=
  ⟨fun hnone => (h'.same hnone).trans (h.same hnone),
    fun names hnames => (h.sameBut names hnames).trans (h'.sameBut names hnames)⟩

theorem Leaves.opens (h : r.Leaves files files') : r.Opens files' := fun names hnames =>
  (h.sameBut names hnames).opens'

/-- At a path that does not lead to the log file there is the same. -/
theorem Leaves.textAt_eq (h : r.Leaves files files') {p : Path}
    (hp : ∀ names, r.file = some names → ¬files.LeadsTo p names) :
    textAt files' p = textAt files p := by
  cases hfile : r.file with
  | none => rw [h.same hfile]
  | some names => rw [textAt, textAt, (h.sameBut names hfile).entry_eq (hp names hfile)]

end Reporting

/-- A report leaves the files. -/
theorem Session.leaves_report (h : r.Opens s.files) (records : List Log.Record) :
    r.Leaves s.files (s.report r records).files := by
  refine ⟨fun hnone => ?_, fun names hnames => ?_⟩
  · rw [report]
    simp only [Reporting.keep, hnone]
  · rw [report]
    simp only [Reporting.keep, hnames]
    exact .append (h names hnames) _

/-- So does the start of reporting. -/
theorem Session.leaves_startReporting (s : Session) (level : Log.Level) (stamp : Option Text)
    (path : Text) : (s.startReporting level stamp path).1.Leaves s.files
      (s.startReporting level stamp path).2.files := by
  rw [startReporting]
  split
  · exact .refl nofun
  · split
    next names hopened =>
      refine Session.leaves_report (fun found hfound => ?_) _
      exact Option.some.inj hfound ▸ FileTree.openFault?_of_opened hopened
    next => exact Session.leaves_report (fun names hnames => by cases hnames) _

/-- So does an input. -/
theorem Input.leaves_past (rules : Rules) {x : Input} (h : r.Opens x.session.files) :
    r.Leaves x.session.files (x.past rules r).files := by
  rw [past]
  cases hread : x.session.read x.path with
  | error stop => cases stop <;> exact .refl h
  | ok found =>
    have hfiles := (Session.read_eq_ok hread).1
    rw [← hfiles] at h ⊢
    exact Session.leaves_report h _

/-- A run leaves the files on its way to an input. -/
theorem leaves_of_mem_met (h : r.Opens s.files) {x : Input} (hx : x ∈ met rules r s inputs) :
    r.Leaves s.files x.session.files := by
  induction inputs generalizing s with
  | nil => cases hx
  | cons path rest ih =>
    rcases List.mem_cons.mp hx with rfl | hx
    · exact .refl h
    · have hpast := Input.leaves_past rules (x := ⟨path, s⟩) h
      exact hpast.trans (ih hpast.opens hx)

end Asciidoc.Command
