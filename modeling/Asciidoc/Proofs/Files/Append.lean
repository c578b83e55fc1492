import Asciidoc.Files.Tree

/-!
# Files that get longer

Adding to a file that opens changes what is found at its own place and nowhere else
(`FileTree.SameBut.append`, `FileTree.SameBut.entry_eq`), whether the file was there or is made: one
that opens without being there is in a directory, so that no directory is made with it. A path is
told by where it leads, as many paths lead to one place.
-/

namespace Asciidoc.FileTree

open Text

variable {tree tree' tree'' : FileTree} {names other : List Text}

/-- A path leads to the place of some names from the root. -/
def LeadsTo (tree : FileTree) (p : Path) (names : List Text) : Prop :=
  p.parts.foldlM tree.step (tree.start p) = .ok (.inside names)

/-- Two trees differ at most in a file that opens in both. -/
structure SameBut (names : List Text) (tree tree' : FileTree) : Prop where
  /-- They hang on the same. -/
  root : tree'.root = tree.root
  /-- They are seen from the same directory. -/
  directory : tree'.directory = tree.directory
  /-- At other places there is the same. -/
  others : ∀ other, other ≠ names → tree'.lookup? other = tree.lookup? other
  /-- The file opens in the one. -/
  opens : tree.openFault? names = none
  /-- And in the other. -/
  opens' : tree'.openFault? names = none

theorem SameBut.refl (h : tree.openFault? names = none) : SameBut names tree tree :=
  ⟨rfl, rfl, fun _ _ => rfl, h, h⟩

theorem SameBut.trans (h : SameBut names tree tree') (h' : SameBut names tree' tree'') :
    SameBut names tree tree'' :=
  ⟨h'.root.trans h.root, h'.directory.trans h.directory,
    fun other hother => (h'.others other hother).trans (h.others other hother), h.opens,
    h'.opens'⟩

/-! ## Files that open -/

/-- What is looked for behind a name, if that is given, is looked for in an open directory. -/
theorem passFault?_eq_none_iff {item : Option Item} {name : Text} :
    passFault? item name = none ↔ item = some .directory ∧ Utf8.size name ≤ longestName := by
  match item with
  | none | some (.file _) | some .sealed | some .closed => simp [passFault?]
  | some .directory => simp [passFault?]

/-- A file opens if all names before it are those of directories that let through, no name is too
long, and at the end there is a file or nothing. -/
theorem openFault?_eq_none_iff : tree.openFault? names = none ↔
    (∀ n name, names[n]? = some name →
      tree.lookup? (names.take n) = some .directory ∧ Utf8.size name ≤ longestName) ∧
    endFault? (tree.lookup? names) = none := by
  rw [openFault?, Option.or_eq_none_iff, List.findSome?_eq_none_iff]
  simp only [List.mem_zipIdx_iff_getElem?, Prod.forall, passFault?_eq_none_iff]
  exact and_congr_left' forall_comm

/-- A directory on the way to a file that opens lets through. -/
theorem lookup?_of_opens (h : tree.openFault? names = none) (hway : other <+: names)
    (hother : other ≠ names) : tree.lookup? other = some .directory := by
  have hlt : other.length < names.length :=
    Nat.lt_of_le_of_ne hway.length_le fun hlength => hother (hway.eq_of_length hlength)
  have hpass := (openFault?_eq_none_iff.mp h).1 other.length _ (List.getElem?_eq_getElem hlt)
  rw [List.prefix_iff_eq_take.mp hway]
  exact hpass.1

/-- A file that opens does so as long as there is the same at other places. -/
theorem opens_of_others (h : tree.openFault? names = none)
    (hothers : ∀ other, other ≠ names → tree'.lookup? other = tree.lookup? other)
    {bytes : ByteArray} (hfile : tree'.lookup? names = some (.file bytes)) :
    tree'.openFault? names = none := by
  refine openFault?_eq_none_iff.mpr ⟨fun n name hname => ?_, by rw [hfile]; rfl⟩
  have hlt := (List.getElem?_eq_some_iff.mp hname).1
  have hother : names.take n ≠ names := fun heq => by
    have := congrArg List.length heq
    rw [List.length_take] at this
    omega
  rw [hothers _ hother]
  exact (openFault?_eq_none_iff.mp h).1 n name hname

/-- A path opens a file that opens. -/
theorem openFault?_of_opened {p : Path} (h : tree.opened p = .ok names) :
    tree.openFault? names = none := by
  rw [opened] at h
  split at h
  · dsimp only at h
    split at h
    · cases h
    · split at h
      next hfault => exact Except.ok.inj h ▸ hfault
      next => cases h
  · dsimp only at h
    split at h
    · cases h
    · split at h <;> cases h

/-- There is something at a directory or below it, unless it is the root. -/
theorem exists_node_of_directory (h : tree.lookup? names = some .directory) (hroot : names ≠ []) :
    ∃ node ∈ tree.nodes, names <+: node.1 := by
  rw [lookup?] at h
  split at h
  next found item hfound =>
    have hname : found = names := by simpa using List.find?_some hfound
    exact ⟨_, List.mem_of_find?_eq_some hfound, hname ▸ List.prefix_rfl⟩
  next =>
    split at h
    next hbelow => simpa [hroot] using hbelow
    next => cases h

/-! ## Adding to a file -/

theorem nodes_append (tree : FileTree) (names : List Text) (bytes : ByteArray) :
    ∃ all, (tree.append names bytes).nodes
      = (tree.nodes.filter fun node => node.1 ≠ names) ++ [(names, .file all)] := by
  rw [append]
  split <;> exact ⟨_, rfl⟩

/-- After something is added to a file, the file is there. -/
theorem lookup?_append_self (tree : FileTree) (names : List Text) (bytes : ByteArray) :
    ∃ all, (tree.append names bytes).lookup? names = some (.file all) := by
  obtain ⟨all, hnodes⟩ := tree.nodes_append names bytes
  have hothers : (tree.nodes.filter fun node => node.1 ≠ names).find?
      (fun node => node.1 == names) = none :=
    List.find?_eq_none.mpr fun node hnode => by simpa using (List.mem_filter.mp hnode).2
  refine ⟨all, ?_⟩
  rw [lookup?, hnodes, List.find?_append, hothers]
  simp

/-- What there is at other names is found among the nodes as before. -/
theorem find?_nodes_append (tree : FileTree) (bytes : ByteArray) (hother : other ≠ names) :
    (tree.append names bytes).nodes.find? (fun node => node.1 == other)
      = tree.nodes.find? fun node => node.1 == other := by
  obtain ⟨all, hnodes⟩ := tree.nodes_append names bytes
  have hlast : (names == other) = false := beq_false_of_ne (Ne.symm hother)
  rw [hnodes, List.find?_append, List.find?_singleton, hlast, List.find?_filter]
  simp only [Bool.false_eq_true, if_false, Option.or_none]
  congr 1
  funext node
  by_cases hnode : node.1 = other
  · simp [hnode, hother]
  · simp [hnode]

theorem any_nodes_append (h : tree.openFault? names = none) (bytes : ByteArray)
    (hother : other ≠ names) (hroot : other ≠ []) :
    (tree.append names bytes).nodes.any (fun node => other.isPrefixOf node.1)
      = tree.nodes.any fun node => other.isPrefixOf node.1 := by
  obtain ⟨all, hnodes⟩ := tree.nodes_append names bytes
  rw [hnodes, Bool.eq_iff_iff]
  simp only [List.any_eq_true, List.mem_append, List.mem_filter, List.mem_singleton,
    List.isPrefixOf_iff_prefix]
  constructor
  · rintro ⟨node, ⟨hnode, -⟩ | rfl, hway⟩
    · exact ⟨node, hnode, hway⟩
    · exact exists_node_of_directory (lookup?_of_opens h hway hother) hroot
  · rintro ⟨node, hnode, hway⟩
    by_cases hname : node.1 = names
    · exact ⟨_, .inr rfl, hname ▸ hway⟩
    · exact ⟨node, .inl ⟨hnode, by simpa using hname⟩, hway⟩

theorem lookup?_append_of_ne (h : tree.openFault? names = none) (bytes : ByteArray)
    (hother : other ≠ names) : (tree.append names bytes).lookup? other = tree.lookup? other := by
  rw [lookup?, lookup?, find?_nodes_append tree bytes hother]
  by_cases hroot : other = []
  · rw [hroot, List.isEmpty_nil, Bool.true_or, Bool.true_or]
  · rw [any_nodes_append h bytes hother hroot]

/-- What is added to a file that opens is found in it and nowhere else. -/
theorem SameBut.append (h : tree.openFault? names = none) (bytes : ByteArray) :
    SameBut names tree (tree.append names bytes) := by
  obtain ⟨all, hfile⟩ := tree.lookup?_append_self names bytes
  have hothers (other : List Text) (hother : other ≠ names) :=
    lookup?_append_of_ne h bytes hother
  refine ⟨?_, ?_, hothers, h, opens_of_others h hothers hfile⟩
  all_goals
    rw [FileTree.append]
    split <;> rfl

/-! ## Paths -/

/-- A file leads nowhere, whether it is there yet or not. -/
theorem step_of_opens (h : tree.openFault? names = none) (name : Text) :
    ∃ fault, tree.step (.inside names) name = .error fault ∧ fault.content = .missing := by
  have hend := (openFault?_eq_none_iff.mp h).2
  rw [step.eq_def, atPlace?]
  cases hitem : tree.lookup? names with
  | none => exact ⟨_, rfl, rfl⟩
  | some item =>
    rw [hitem] at hend
    cases item with
    | file bytes => exact ⟨_, rfl, rfl⟩
    | sealed | directory | closed => cases hend

/-- From elsewhere the same names lead on. -/
theorem SameBut.step_eq (h : SameBut names tree tree') {place : Place}
    (hplace : place ≠ .inside names) : tree'.step place = tree.step place := by
  funext name
  match place with
  | .above _ => rfl
  | .inside reached =>
    have hreached : reached ≠ names := fun heq => hplace (heq ▸ rfl)
    rw [step.eq_def, step.eq_def]
    simp only [atPlace?, h.others reached hreached]

/-- So names lead to the same place, or what they do not lead to is missing in both. -/
theorem SameBut.foldlM_step (h : SameBut names tree tree') (parts : List Text) (place : Place) :
    (parts.foldlM tree'.step place).mapError OpenFault.content
      = (parts.foldlM tree.step place).mapError OpenFault.content := by
  induction parts generalizing place with
  | nil => rfl
  | cons name rest ih =>
    rw [List.foldlM_cons, List.foldlM_cons]
    by_cases hplace : place = .inside names
    · subst hplace
      obtain ⟨fault, hstep, hmissing⟩ := step_of_opens h.opens name
      obtain ⟨fault', hstep', hmissing'⟩ := step_of_opens h.opens' name
      rw [hstep, hstep']
      exact congrArg Except.error (hmissing'.trans hmissing.symm)
    · rw [h.step_eq hplace]
      cases tree.step place name with
      | error fault => rfl
      | ok next => exact ih next

theorem SameBut.start_eq (h : SameBut names tree tree') (p : Path) :
    tree'.start p = tree.start p := by
  rw [start, start, h.root, h.directory]

/-- At a path that does not lead to the file there is the same. -/
theorem SameBut.entry_eq (h : SameBut names tree tree') {p : Path} (hp : ¬tree.LeadsTo p names) :
    tree'.entry p = tree.entry p := by
  have hwalk := h.foldlM_step p.parts (tree.start p)
  rw [entry, entry, h.start_eq]
  rw [LeadsTo] at hp
  congr 1
  generalize p.parts.foldlM tree.step (tree.start p) = reached at hwalk hp
  generalize p.parts.foldlM tree'.step (tree.start p) = reached' at hwalk
  cases reached with
  | error fault =>
    cases reached' with
    | error fault' => exact Except.error.inj hwalk
    | ok place => cases hwalk
  | ok place =>
    cases reached' with
    | error fault => cases hwalk
    | ok place' =>
      obtain rfl := Except.ok.inj hwalk
      have hplace : tree'.atPlace? place' = tree.atPlace? place' := by
        cases place' with
        | above _ => rfl
        | inside found => exact h.others found fun hfound => hp (hfound ▸ rfl)
      simp only [hplace]

end Asciidoc.FileTree
