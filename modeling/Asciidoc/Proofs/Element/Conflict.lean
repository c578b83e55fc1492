import Asciidoc.BlockAttributes
import Asciidoc.Proofs.Text.Pieces

/-!
# Lines that cannot be taken in

A line about a block can fail in one way: it gives positional values after its style, and the
entry `positional=`, on that line or on an earlier one about the same block, has put a text in
their place. `conflict_add_iff` says that this is the only way.
-/

namespace Asciidoc

open Text

namespace BlockAttributes

/-- A text stands where the positional values go. -/
def HasText (a : BlockAttributes) : Prop := ∃ t, a.positional = some (.text t)

/-- A part of a line that puts a text where the positional values go. -/
def IsPositionalEntry (part : Text) : Prop :=
  ∃ key value, cut? '=' part = some (key, value) ∧ trim key = positionalKey

/-- The inside of a line that puts a text where the positional values go. -/
def NamesPositional (content : Text) : Prop := ∃ part ∈ parts content, IsPositionalEntry part

/-- The inside of a line that gives positional values: a part after the first that is no entry. -/
def GivesValues (content : Text) : Prop := ∃ part ∈ (parts content).drop 1, '=' ∉ part

variable {a : BlockAttributes} {part content : Text}

/-- A named value leaves the positional values alone under any other key. -/
theorem positional_name {key : Text} (h : key ≠ positionalKey) (value : Text) :
    (a.name key value).positional = a.positional := by
  rw [name, if_neg h]

/-- What single values leave alone a run of values leaves alone. -/
theorem foldl_keeps {α β : Type} {view : BlockAttributes → α}
    {take : BlockAttributes → β → BlockAttributes} (h : ∀ a x, view (take a x) = view a)
    (xs : List β) (a : BlockAttributes) : view (xs.foldl take a) = view a := by
  induction xs generalizing a with
  | nil => rfl
  | cons x rest ih => exact (ih (take a x)).trans (h a x)

/-- What neither options nor the names of the shorthands touch the style leaves alone. -/
theorem addStyle_keeps {α : Type} {view : BlockAttributes → α}
    (hname : ∀ key ∈ [identifierKey, roleKey, styleKey], ∀ a value,
      view (a.name key value) = view a)
    (hoptions : ∀ a options, view (a.addOptions options) = view a) (a : BlockAttributes)
    (part : Text) : view (a.addStyle part) = view a := by
  rw [addStyle]
  split
  · rfl
  · rename_i style options _
    refine Eq.trans ?after (@foldl_keeps α (Char × Text) view ?take ?each (shorthands style) a)
    case after =>
      dsimp only
      split
      · split
        · rfl
        · exact hname styleKey (by simp) _ _
      · refine (hoptions _ _).trans ?_
        split
        · rfl
        · exact hname styleKey (by simp) _ _
    case each =>
      rintro a ⟨mark, t⟩
      refine hname _ ?_ a t
      split <;> simp

/-- The style leaves the positional values alone. -/
theorem positional_addStyle (a : BlockAttributes) (part : Text) :
    (a.addStyle part).positional = a.positional := by
  refine addStyle_keeps (fun key hkey a value => positional_name ?_ value) (fun _ _ => rfl) a part
  revert key
  decide

/-- An entry puts a text where the positional values go, or leaves them alone. -/
theorem hasText_addEntry {key value : Text} :
    (a.addEntry key value).HasText ↔ a.HasText ∨ trim key = positionalKey := by
  have hoptions : "opts".toList ≠ positionalKey ∧ "options".toList ≠ positionalKey := by decide
  rw [addEntry]
  split
  · rename_i h
    have hkey : trim key ≠ positionalKey := by
      rintro hkey
      rw [hkey] at h
      revert h
      decide
    simp [HasText, addOptions, hkey]
  · by_cases hkey : trim key = positionalKey
    · simp [HasText, name, hkey]
    · simp [HasText, positional_name hkey, hkey]

/-- The parts of a line put a text where the positional values go if one of them does. -/
theorem hasText_addParts (a : BlockAttributes) (atFirst : Bool) (ps : List Text) :
    (a.addParts atFirst ps).1.HasText ↔ a.HasText ∨ ∃ part ∈ ps, IsPositionalEntry part := by
  induction ps generalizing a atFirst with
  | nil => simp [addParts]
  | cons part rest ih =>
    rw [addParts]
    split
    · rename_i key value hcut
      rw [ih, hasText_addEntry]
      simp [IsPositionalEntry, hcut, or_assoc]
    · rename_i hcut
      have hentry : ¬IsPositionalEntry part := by simp [IsPositionalEntry, hcut]
      split
      · rw [ih]
        simp [HasText, positional_addStyle, hentry]
      · dsimp only
        rw [ih]
        simp [hentry]

/-- The positional values of a line are its parts that are no entries, without the style. -/
theorem addParts_values (a : BlockAttributes) (atFirst : Bool) (ps : List Text) :
    (a.addParts atFirst ps).2 = (ps.drop atFirst.toNat).filter ('=' ∉ ·) := by
  induction ps generalizing a atFirst with
  | nil => simp [addParts]
  | cons part rest ih =>
    rw [addParts]
    split
    · rename_i key value hcut
      have hmem : '=' ∈ part := by
        refine Decidable.byContradiction fun h => ?_
        rw [cut?_eq_none_iff.mpr h] at hcut
        cases hcut
      rw [ih]
      cases atFirst <;> simp [hmem]
    · rename_i hcut
      have hmem := cut?_eq_none_iff.mp hcut
      cases atFirst <;> simp [ih, hmem]

/-- A line cannot be taken in exactly if it gives positional values and a text stands where they
go, from before or from the line itself. -/
theorem conflict_add_iff (a : BlockAttributes) (content : Text) :
    (a.add content).conflict = true ↔
      GivesValues content ∧ (a.HasText ∨ NamesPositional content) := by
  have hvalues : GivesValues content ↔ (a.addParts true (parts content)).2.isEmpty = false := by
    rw [addParts_values]
    simp [GivesValues]
  rw [hvalues, NamesPositional, ← hasText_addParts a true, add]
  dsimp only
  split
  · rename_i h
    simp [h]
  · rename_i h
    rw [HasText]
    split <;> simp_all

/-- A text stands where the positional values go after a line if it did before, or if the line
has put it there. -/
theorem hasText_add (a : BlockAttributes) (content : Text) :
    (a.add content).attributes.HasText ↔ a.HasText ∨ NamesPositional content := by
  rw [NamesPositional, ← hasText_addParts a true, add]
  dsimp only
  split
  · rfl
  · split <;> simp_all [HasText]

/-! ## What is said is in the line -/

theorem partsFrom_isInfix {inQuotes : Bool} {begun t part : Text}
    (h : part ∈ partsFrom inQuotes begun t) : part <:+: begun ++ t := by
  have hbegun {begun t : Text} (h : part ∈ if begun.isEmpty then [] else [begun]) :
      part <:+: begun ++ t := by
    split at h
    · cases h
    · obtain rfl := List.mem_singleton.mp h
      exact (List.prefix_append _ _).isInfix
  induction t generalizing inQuotes begun with
  | nil => exact hbegun h
  | cons c rest ih =>
    have hlonger {inQuotes : Bool} (h : part ∈ partsFrom inQuotes (begun ++ [c]) rest) :
        part <:+: begun ++ c :: rest := by
      simpa using ih h
    have hfresh {inQuotes : Bool} (h : part ∈ partsFrom inQuotes [] rest) :
        part <:+: begun ++ c :: rest :=
      (ih h).trans ((List.suffix_cons c rest).trans (List.suffix_append _ _)).isInfix
    rw [partsFrom] at h
    split at h
    · exact hlonger h
    · split at h
      · exact (List.mem_append.mp h).elim hbegun hfresh
      · split at h
        · split at h
          · exact hlonger h
          · exact (List.mem_append.mp h).elim hbegun hfresh
        · exact hlonger h

/-- A part of a line is in it. -/
theorem infix_of_mem_parts (h : part ∈ parts content) : part <:+: content := by
  obtain ⟨whole, hwhole, rfl⟩ := List.mem_map.mp h
  exact (trim_isInfix whole).trans (partsFrom_isInfix hwhole)

/-- A line that puts a text where the positional values go has their key in it. -/
theorem NamesPositional.isInfix (h : NamesPositional content) : positionalKey <:+: content := by
  obtain ⟨part, hpart, key, value, hcut, hkey⟩ := h
  have hpiece : key <:+: part := cut?_eq_some hcut ▸ (List.prefix_append _ _).isInfix
  exact hkey ▸ ((trim_isInfix key).trans hpiece).trans (infix_of_mem_parts hpart)

/-- A key under which only entries name values. -/
def IsEntryKey (key : Text) : Prop := key ≠ identifierKey ∧ key ≠ roleKey ∧ key ≠ styleKey

variable {key value : Text}

theorem value?_name_of_ne {other : Text} (h : key ≠ other) :
    (a.name other value).value? key = a.value? key := by
  rw [name]
  split
  · rfl
  · exact Entries.find?_put_of_ne _ _ h

theorem value?_addStyle (hkey : IsEntryKey key) (a : BlockAttributes) (part : Text) :
    (a.addStyle part).value? key = a.value? key := by
  let view (a : BlockAttributes) : Option Text := a.value? key
  obtain ⟨hidentifier, hrole, hstyle⟩ := hkey
  have hname : ∀ other ∈ [identifierKey, roleKey, styleKey], ∀ a value,
      view (a.name other value) = view a := by
    refine fun other hother a value => value?_name_of_ne ?_
    rintro rfl
    simp [hidentifier, hrole, hstyle] at hother
  exact addStyle_keeps hname (fun _ _ => rfl) a part

/-- The value that an entry names is in the entry. -/
theorem value?_addEntry {written text : Text} (h : (a.addEntry written text).value? key = some value) :
    a.value? key = some value ∨ value <:+: text := by
  rw [addEntry] at h
  split at h
  · exact .inl h
  · by_cases hkey : key = trim written
    · rw [name] at h
      split at h
      · exact .inl h
      · subst hkey
        obtain rfl := Option.some.inj ((Entries.find?_put_self _ _ _).symm.trans h)
        exact .inr ((strip_isInfix _ _).trans (trim_isInfix text))
    · exact .inl (by rwa [value?_name_of_ne hkey] at h)

/-- A value that is named after a line was before, or is in the line. -/
theorem value?_add (hkey : IsEntryKey key)
    (h : (a.add content).attributes.value? key = some value) :
    a.value? key = some value ∨ value <:+: content := by
  have hparts (ps : List Text) (hps : ∀ part ∈ ps, part <:+: content) (atFirst : Bool)
      (a : BlockAttributes) (h : (a.addParts atFirst ps).1.value? key = some value) :
      a.value? key = some value ∨ value <:+: content := by
    induction ps generalizing atFirst a with
    | nil => exact .inl h
    | cons part rest ih =>
      obtain ⟨hpart, hrest⟩ := List.forall_mem_cons.mp hps
      rw [addParts] at h
      split at h
      · rename_i written text hcut
        have htext : text <:+: part :=
          cut?_eq_some hcut ▸ ((List.suffix_cons '=' text).trans (List.suffix_append _ _)).isInfix
        rcases ih hrest _ _ h with h | h
        · exact (value?_addEntry h).imp_right fun h => (h.trans htext).trans hpart
        · exact .inr h
      · split at h
        · rw [← value?_addStyle hkey a part]
          exact ih hrest _ _ h
        · exact ih hrest _ _ h
  have hadded := hparts (parts content) (fun _ => infix_of_mem_parts) true a
  rw [add] at h
  dsimp only at h
  split at h
  · exact hadded h
  · split at h <;> exact hadded h

end BlockAttributes

end Asciidoc
