import Asciidoc.Proofs.Command.Inputs
import Mathlib.Data.List.Forall2

/-!
# Inputs are isolated from each other

A run in the interchange format whose inputs are files prints the documents of those that can be
read, in order, whatever the others are: nothing for none, the tree for one, and a list for more
(`Command.printed`). The others are left out without a trace in what is printed, and remembered in
the code the run ends with.

A hidden input is not isolated: the first one ends the run at once, so that nothing is printed of
the inputs before and behind it. A run ends with a code exactly if there is none
(`Command.run_isolates`).

The files may change while the run goes on, if its log file is among its inputs; each input counts
as what it is when the run comes to it. Any other input is what it was at the start.
-/

namespace Asciidoc.Command

open Text

/-! ## What is printed -/

/-- What is printed for documents with their paths: the tree of a single one, and a list of tables
of a path and a tree for more. -/
def printed (indent : Int) : List (Text × Node Text) → Text
  | [] => []
  | [(_, root)] =>
    Node.written (if 0 < indent then some indent else none) false root.ofTexts ++ ['\n']
  | documents =>
    Json.written (Node.layout (if 0 < indent then some indent else none) false)
      (.list (documents.map fun (path, root) =>
        .fields [("filePath", .string path), ("ast", root.ofTexts.encode)])) ++ ['\n']

theorem out_printDocuments (s : Session) (indent : Int) (documents : List (Text × Node Text)) :
    (s.printDocuments indent documents).out = s.out ++ printed indent documents := by
  rw [Session.printDocuments]
  match documents with
  | [] => exact (List.append_nil _).symm
  | [_] => rfl
  | _ :: _ :: _ => rfl

/-! ## The start of a run -/

/-- How a run reports, and the session in which it starts. -/
def Arguments.opening (a : Arguments) (around : Surroundings) : Reporting × Session :=
  Session.startReporting ⟨around.files, around.input, [], []⟩
    (if a.trace then .debug else a.logLevel) (if a.trace then some around.time else none)
    (a.logFile.getD [])

/-- A run comes to its inputs: it reports in a certain way, has settings, and is in a session. -/
structure Starts (around : Surroundings) (a : Arguments) (r : Reporting) (s : Settings)
    (session : Session) : Prop where
  /-- It reports so. -/
  reporting : (a.opening around).1 = r
  /-- Its configuration is loaded and gives settings. -/
  settings : Command.settings around r a (a.opening around).2 = (.ok s, session)

theorem run_of_parse {words : List Text} {a : Arguments} (h : Arguments.parse words = .ok a)
    (around : Surroundings) : run around words = a.run around := by
  rw [run, h]

namespace Starts

variable {around : Surroundings} {a : Arguments} {r : Reporting} {s : Settings} {session : Session}

/-- A run that starts prints what comes of its inputs. -/
theorem run_of_ok (h : Starts around a r s session) {p : Progressing} {last : Session}
    (hinputs : convertAll s.rules r a.format { session := session } a.inputs = (.ok p, last)) :
    a.run around = ⟨.code p.code, last.printDocuments a.indent p.documents⟩ := by
  obtain ⟨rfl, hsettings⟩ := h
  rw [Arguments.opening] at hsettings hinputs
  simp only [Arguments.run, hsettings, hinputs]

theorem run_of_error (h : Starts around a r s session) {crash : Crash} {last : Session}
    (hinputs : convertAll s.rules r a.format { session := session } a.inputs
      = (.error crash, last)) :
    a.run around = ⟨.crash crash, last⟩ := by
  obtain ⟨rfl, hsettings⟩ := h
  rw [Arguments.opening] at hsettings hinputs
  simp only [Arguments.run, hsettings, hinputs]

/-- Other inputs do not matter to the start of a run. -/
theorem withInputs (h : Starts around a r s session) (inputs : List Text) :
    Starts around { a with inputs := inputs } r s session :=
  ⟨h.reporting, h.settings⟩

/-- The session in which a run comes to its inputs is that in which it starts, after a report. -/
theorem session_eq (h : Starts around a r s session) :
    ∃ records, session = (a.opening around).2.report r records := by
  obtain ⟨-, hsettings⟩ := h
  rw [Command.settings] at hsettings
  split at hsettings
  · cases hsettings
  · exact ⟨_, (Prod.mk.inj hsettings).2.symm⟩

/-- Nothing has been printed when a run comes to its inputs. -/
theorem out_eq (h : Starts around a r s session) : session.out = [] := by
  obtain ⟨records, rfl⟩ := h.session_eq
  rw [Session.out_report, Arguments.opening, Session.startReporting]
  split
  · rfl
  · split <;> rfl

/-- A run leaves the files on its way to its inputs. -/
theorem leaves (h : Starts around a r s session) : r.Leaves around.files session.files := by
  have hopening : (a.opening around).1.Leaves around.files (a.opening around).2.files :=
    Session.leaves_startReporting ⟨around.files, around.input, [], []⟩ _ _ _
  rw [h.reporting] at hopening
  obtain ⟨records, rfl⟩ := h.session_eq
  exact hopening.trans (Session.leaves_report hopening.opens records)

/-- A file that is not the log file is found as it was when the run began. -/
theorem text_eq (h : Starts around a r s session) {x : Input}
    (hx : x ∈ met s.rules r session a.inputs) (hpath : x.path ≠ standardInput)
    (hlog : ∀ names, r.file = some names →
      ¬around.files.LeadsTo (Path.ofText x.path) names) :
    x.text = textAt around.files (Path.ofText x.path) := by
  rw [Input.text_eq_textAt hpath]
  exact (h.leaves.trans (leaves_of_mem_met h.leaves.opens hx)).textAt_eq hlog

/-- In the interchange format a run comes to an end if no input is hidden and all that can be read
are converted. It prints their documents, and its code tells whether there was another input. -/
theorem run_interchange (h : Starts around a r s session) (hformat : a.format = .interchange)
    (hseen : ∀ x ∈ met s.rules r session a.inputs, ¬x.IsHidden)
    (hconverts : ∀ x ∈ met s.rules r session a.inputs, x.Converts s.rules) :
    (a.run around).ending = .code (if (met s.rules r session a.inputs).all Input.isReadable
        then exitSuccess else exitInput) ∧
      (a.run around).session.out = printed a.indent
        ((met s.rules r session a.inputs).filterMap (Input.document? s.rules)) := by
  have hinputs := convertAll_eq { session := session } a.inputs hseen hconverts
  rw [← hformat] at hinputs
  rw [h.run_of_ok hinputs]
  refine ⟨rfl, ?_⟩
  rw [out_printDocuments, out_pastAll, h.out_eq, List.nil_append, List.nil_append]

/-- It comes to an end only then. -/
theorem converts_of_run (h : Starts around a r s session) (hformat : a.format = .interchange)
    {code : Nat} (hrun : (a.run around).ending = .code code) :
    ∀ x ∈ met s.rules r session a.inputs, ¬x.IsHidden ∧ x.Converts s.rules := by
  cases hinputs : convertAll s.rules r a.format { session := session } a.inputs with
  | mk result last =>
    cases result with
    | error crash =>
      rw [h.run_of_error hinputs] at hrun
      cases hrun
    | ok p =>
      rw [hformat] at hinputs
      exact converts_of_convertAll_eq_ok (p := { session := session })
        (congrArg Prod.fst hinputs)

/-- The first hidden input ends it at once, with nothing printed. -/
theorem run_of_hidden (h : Starts around a r s session) (hformat : a.format = .interchange)
    {before after : List Input} {x : Input} {fault : LookFault}
    (hmet : met s.rules r session a.inputs = before ++ x :: after)
    (hseen : ∀ y ∈ before, ¬y.IsHidden) (hconverts : ∀ y ∈ before, y.Converts s.rules)
    (hx : x.text = .error (.hidden fault)) :
    (a.run around).ending = .crash (.input fault) ∧ (a.run around).session.out = [] := by
  obtain ⟨last, hinputs, hout⟩ :=
    convertAll_of_hidden (p := { session := session }) hmet hseen hconverts hx
  rw [← hformat] at hinputs
  rw [h.run_of_error hinputs]
  exact ⟨rfl, hout.trans h.out_eq⟩

end Starts

/-! ## Leaving out inputs that cannot be read -/

variable {rules : Rules} {r : Reporting} {inputs : List Text}

/-- Two inputs are found to be the same. -/
def Input.Alike (y x : Input) : Prop := y.path = x.path ∧ y.text = x.text

theorem Input.Alike.document?_eq {x y : Input} (h : y.Alike x) :
    y.document? rules = x.document? rules := by
  rw [document?, document?, h.1, h.2]

theorem Input.Alike.converts_iff {x y : Input} (h : y.Alike x) :
    y.Converts rules ↔ x.Converts rules := by
  rw [Converts, Converts, h.2]

theorem Input.Alike.isHidden_iff {x y : Input} (h : y.Alike x) : y.IsHidden ↔ x.IsHidden := by
  rw [IsHidden, IsHidden, h.2]

/-- What can be read is not hidden. -/
theorem Input.not_isHidden_of_isReadable {x : Input} (h : x.isReadable = true) : ¬x.IsHidden := by
  rintro ⟨fault, hx⟩
  rw [isReadable, hx] at h
  cases h

/-- Two sessions have the same files and the same left of the standard input. -/
def Session.Alike (s' s : Session) : Prop := s'.files = s.files ∧ s'.input = s.input

theorem Session.Alike.report {s s' : Session} (h : s'.Alike s) (records : List Log.Record) :
    (s'.report r records).Alike (s.report r records) :=
  ⟨congrArg (r.keep (r.lines records)) h.1, h.2⟩

theorem Session.Alike.past {s s' : Session} (h : s'.Alike s) (path : Text) :
    (Input.past rules r ⟨path, s'⟩).Alike (Input.past rules r ⟨path, s⟩) := by
  rw [Input.past, Input.past, Session.read, Session.read, h.1, h.2]
  by_cases hpath : path = standardInput
  · rw [if_pos hpath, if_pos hpath]
    exact Session.Alike.report ⟨rfl, rfl⟩ _
  · rw [if_neg hpath, if_neg hpath]
    cases textAt s.files (Path.ofText path) with
    | error stop => cases stop <;> exact h
    | ok t => exact h.report _

/-- An input that cannot be read leaves the files and the standard input. -/
theorem Session.alike_past (rules : Rules) (r : Reporting) {s : Session} {path : Text}
    (h : (⟨path, s⟩ : Input).isReadable = false) :
    s.Alike (Input.past rules r ⟨path, s⟩) := by
  rw [Input.past]
  cases hread : s.read path with
  | error stop => cases stop <;> exact ⟨rfl, rfl⟩
  | ok found =>
    rw [Input.isReadable, Input.text, hread] at h
    cases h

/-- Without the inputs that cannot be read a run finds the others to be the same. -/
theorem forall₂_met_filter (rules : Rules) (r : Reporting) {s s' : Session} (h : s'.Alike s)
    (inputs : List Text) :
    List.Forall₂ Input.Alike
      (met rules r s' (((met rules r s inputs).filter Input.isReadable).map (·.path)))
      ((met rules r s inputs).filter Input.isReadable) := by
  induction inputs generalizing s s' with
  | nil => exact .nil
  | cons path rest ih =>
    rw [met]
    cases hreadable : (⟨path, s⟩ : Input).isReadable with
    | true =>
      rw [List.filter_cons_of_pos hreadable, List.map_cons, met]
      exact .cons ⟨rfl, text_congr rfl h.1 h.2⟩ (ih (h.past path))
    | false =>
      rw [List.filter_cons_of_neg (by simp [hreadable])]
      have hpast := Session.alike_past rules r hreadable
      exact ih ⟨h.1.trans hpast.1, h.2.trans hpast.2⟩

theorem filterMap_document?_filter (rules : Rules) (xs : List Input) :
    (xs.filter Input.isReadable).filterMap (Input.document? rules)
      = xs.filterMap (Input.document? rules) := by
  rw [List.filterMap_filter]
  refine List.filterMap_congr fun x _ => ?_
  cases htext : x.text with
  | error fault =>
    obtain ⟨hreadable, hnone⟩ := Input.document?_of_error rules htext
    rw [hreadable, hnone]
    rfl
  | ok t => rw [Input.isReadable, htext]; rfl

theorem filterMap_document?_congr {xs ys : List Input} (h : List.Forall₂ Input.Alike ys xs) :
    ys.filterMap (Input.document? rules) = xs.filterMap (Input.document? rules) := by
  induction h with
  | nil => rfl
  | cons hfirst _ ih => rw [List.filterMap_cons, List.filterMap_cons, hfirst.document?_eq, ih]

/-- What is told of inputs by what they are found to be holds of inputs that are found to be the
same. -/
theorem forall_mem_of_alike {P : Input → Prop} (hP : ∀ {x y : Input}, y.Alike x → (P y ↔ P x))
    {xs ys : List Input} (h : List.Forall₂ Input.Alike ys xs) (hxs : ∀ x ∈ xs, P x) :
    ∀ y ∈ ys, P y := by
  induction h with
  | nil => exact nofun
  | cons hfirst _ ih =>
    obtain ⟨hx, hrest⟩ := List.forall_mem_cons.mp hxs
    exact List.forall_mem_cons.mpr ⟨(hP hfirst).mpr hx, ih hrest⟩

/-- Files that can be read and are converted have a document each. -/
theorem forall₂_documents {xs : List Input}
    (h : ∀ x ∈ xs, x.path ≠ standardInput ∧ x.Converts rules) :
    List.Forall₂ (fun x document => document.1 = x.path ∧
        ∃ t, x.text = .ok t ∧ (Conversion.ofText rules t).result = .ok document.2)
      (xs.filter Input.isReadable) (xs.filterMap (Input.document? rules)) := by
  induction xs with
  | nil => exact .nil
  | cons x rest ih =>
    obtain ⟨⟨hpath, hconverts⟩, hrest⟩ := List.forall_mem_cons.mp h
    cases htext : x.text with
    | error fault =>
      obtain ⟨hreadable, hnone⟩ := Input.document?_of_error rules htext
      rw [List.filter_cons_of_neg (by simp [hreadable]), List.filterMap_cons_none hnone]
      exact ih hrest
    | ok t =>
      obtain ⟨root, hroot⟩ := hconverts t htext
      obtain ⟨hreadable, hdocument⟩ := Input.document?_of_ok htext hroot
      rw [List.filter_cons_of_pos hreadable, List.filterMap_cons_some hdocument]
      exact .cons ⟨if_neg hpath, t, htext, hroot⟩ (ih hrest)

/-- A run in the interchange format whose inputs are files of which those that can be read are
converted. It comes to the inputs in order, and finds each as it was at the start unless it is the
log file. Those that can be read have their documents printed, in order, by a run that has no other
inputs. The run prints the same if none of its inputs is hidden, and its code tells whether there
was one that cannot be read. Only then does it end with a code: the first hidden input ends it at
once, with nothing printed. -/
theorem run_isolates {around : Surroundings} {words : List Text} {a : Arguments} {r : Reporting}
    {s : Settings} {session : Session} (hwords : Arguments.parse words = .ok a)
    (h : Starts around a r s session) (hformat : a.format = .interchange)
    (hfiles : standardInput ∉ a.inputs)
    (hconverts : ∀ x ∈ met s.rules r session a.inputs, x.Converts s.rules) :
    ((met s.rules r session a.inputs).map (·.path) = a.inputs ∧
      ∀ x ∈ met s.rules r session a.inputs,
        (∀ names, r.file = some names → ¬around.files.LeadsTo (Path.ofText x.path) names) →
          x.text = textAt around.files (Path.ofText x.path)) ∧
    (∃ documents,
      List.Forall₂ (fun x document => document.1 = x.path ∧
          ∃ t, x.text = .ok t ∧ (Conversion.ofText s.rules t).result = .ok document.2)
        ((met s.rules r session a.inputs).filter Input.isReadable) documents ∧
      (Arguments.run { a with
          inputs := ((met s.rules r session a.inputs).filter Input.isReadable).map (·.path) }
        around).session.out = printed a.indent documents ∧
      ((∀ x ∈ met s.rules r session a.inputs, ¬x.IsHidden) →
        (run around words).session.out = printed a.indent documents)) ∧
    ((∀ x ∈ met s.rules r session a.inputs, ¬x.IsHidden) →
      (run around words).ending = .code (if (met s.rules r session a.inputs).all Input.isReadable
        then exitSuccess else exitInput)) ∧
    ((∃ code, (run around words).ending = .code code) ↔
      ∀ x ∈ met s.rules r session a.inputs, ¬x.IsHidden) ∧
    ∀ before x after fault, met s.rules r session a.inputs = before ++ x :: after →
      (∀ y ∈ before, ¬y.IsHidden) → x.text = .error (.hidden fault) →
        (run around words).ending = .crash (.input fault) ∧
          (run around words).session.out = [] := by
  have hpaths := map_path_met s.rules r session a.inputs
  have hfile : ∀ x ∈ met s.rules r session a.inputs, x.path ≠ standardInput := by
    rintro x hx hpath
    exact hfiles (hpaths ▸ hpath ▸ List.mem_map_of_mem hx)
  have hdocuments := forall₂_documents fun x hx => ⟨hfile x hx, hconverts x hx⟩
  have halike := forall₂_met_filter s.rules r (⟨rfl, rfl⟩ : session.Alike session) a.inputs
  have hstarts := h.withInputs
    (((met s.rules r session a.inputs).filter Input.isReadable).map (·.path))
  have hseen := forall_mem_of_alike (fun halike => not_congr halike.isHidden_iff) halike
    fun x hx => Input.not_isHidden_of_isReadable (List.mem_filter.mp hx).2
  have hothers := forall_mem_of_alike Input.Alike.converts_iff halike
    fun x hx => hconverts x (List.mem_of_mem_filter hx)
  obtain ⟨-, hothers⟩ := hstarts.run_interchange hformat hseen hothers
  rw [filterMap_document?_congr halike, filterMap_document?_filter] at hothers
  have hrun := fun hseen => h.run_interchange hformat hseen hconverts
  rw [run_of_parse hwords]
  refine ⟨⟨hpaths, fun x hx hlog => h.text_eq hx (hfile x hx) hlog⟩,
    ⟨_, hdocuments, hothers, fun hseen => (hrun hseen).2⟩, fun hseen => (hrun hseen).1,
    ⟨?_, fun hseen => ⟨_, (hrun hseen).1⟩⟩, ?_⟩
  · rintro ⟨code, hcode⟩ x hx
    exact (h.converts_of_run hformat hcode x hx).1
  · intro before x after fault hmet hseen hx
    refine h.run_of_hidden hformat hmet hseen (fun y hy => hconverts y ?_) hx
    rw [hmet]
    exact List.mem_append_left _ hy

/-- A directory with one file. -/
def oneFile : Surroundings where
  formats := .plain
  files := ⟨['/'], ["w".toList], [(["w".toList, "g".toList], .file "a".toUTF8)]⟩
  home := ⟨['/'], ["h".toList]⟩
  configuration := none
  input := []
  time := []

/-- A name that is too long for a file. -/
def longName : Text := List.replicate 300 'a'

/-- An input of such a name before the file. -/
def longNameThenFile : Arguments where
  inputs := [longName, "g".toList]
  noConfig := true

/-- The file is not converted behind the name that is too long, but without it. -/
theorem run_isolates_longName :
    (run oneFile [longName, "g".toList, "--no-config".toList]).ending
        = .crash (.input .nameTooLong) ∧
      (run oneFile [longName, "g".toList, "--no-config".toList]).session.out = [] ∧
      ∃ root, (Conversion.ofText {} ['a']).result = .ok root ∧
        (Arguments.run { longNameThenFile with inputs := ["g".toList] } oneFile).session.out
          = printed 2 [("g".toList, root)] := by
  have hwords : Arguments.parse [longName, "g".toList, "--no-config".toList]
      = .ok longNameThenFile := by decide +kernel
  have hstarts : Starts oneFile longNameThenFile ⟨.warning, none, none⟩ {}
      ⟨oneFile.files, [], [], []⟩ := ⟨rfl, rfl⟩
  have hfile : textAt oneFile.files (Path.ofText longName) = .error (.hidden .nameTooLong) := by
    decide +kernel
  have hread : Session.read ⟨oneFile.files, [], [], []⟩ longName
      = .error (.hidden .nameTooLong) := by
    rw [Session.read, if_neg (by decide), hfile]
    rfl
  have hmet : met (Settings.rules {}) ⟨.warning, none, none⟩ ⟨oneFile.files, [], [], []⟩
        longNameThenFile.inputs
      = [⟨longName, ⟨oneFile.files, [], [], []⟩⟩, ⟨"g".toList, ⟨oneFile.files, [], [], []⟩⟩] := by
    rw [longNameThenFile, met, Input.past, hread]
    rfl
  have hlong : (⟨longName, ⟨oneFile.files, [], [], []⟩⟩ : Input).text
      = .error (.hidden .nameTooLong) := Input.text_of_read_error hread
  have hconverts : ∀ x ∈ met (Settings.rules {}) ⟨.warning, none, none⟩
      ⟨oneFile.files, [], [], []⟩ longNameThenFile.inputs, x.Converts (Settings.rules {}) := by
    rw [hmet, List.forall_mem_cons, List.forall_mem_singleton]
    refine ⟨fun t ht => ?_, fun t ht => ?_⟩
    · cases hlong.symm.trans ht
    · obtain rfl : ['a'] = t := Except.ok.inj ht
      exact ⟨_, by with_unfolding_all rfl⟩
  obtain ⟨-, ⟨documents, hdocuments, hout, -⟩, -, -, hhidden⟩ :=
    run_isolates hwords hstarts rfl (by decide) hconverts
  obtain ⟨hending, hnothing⟩ := hhidden [] _ _ .nameTooLong hmet (List.forall_mem_nil _) hlong
  rw [hmet, List.filter_cons_of_neg (by rw [Input.isReadable, hlong]; exact Bool.false_ne_true)]
    at hdocuments hout
  obtain ⟨⟨path, root⟩, _, ⟨hpath, t, ht, hroot⟩, hnone, rfl⟩ :=
    List.forall₂_cons_left_iff.mp hdocuments
  obtain rfl := List.forall₂_nil_left_iff.mp hnone
  obtain rfl : ['a'] = t := Except.ok.inj ht
  obtain rfl : path = "g".toList := hpath
  exact ⟨hending, hnothing, root, hroot, hout⟩

end Asciidoc.Command
