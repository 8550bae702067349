import Blocklist.Proofs.Fingerprint
import Blocklist.Source.Json

/-!
Sources of configured entries. Main statement: an entry resolves exactly if it meets every check, the error
is that of the first check that it does not meet, and the source it resolves to resolves to itself.
-/

namespace Blocklist

theorem IsTrimmed.trimmed_eq {text : String} (clean : IsTrimmed text) : Text.trimmed text = text := by
  rw [Text.trimmed, clean, String.ofList_toList]

namespace Category

theorem ofName?_eq_some {name : String} {c : Category} : ofName? name = some c ↔ name = c.name := by
  constructor
  · intro found
    unfold ofName? at found
    have named := List.find?_some found
    exact (of_decide_eq_true named).symm
  · rintro rfl
    cases c <;> rfl

theorem lowered_name (c : Category) : Text.lowered (Text.trimmed c.name) = c.name := by
  cases c <;> decide

theorem parse_of_isTrimmed {label : String} (clean : IsTrimmed label) {c : Category}
    (registered : Text.lowered label = c.name) : parse label = .ok c := by
  rw [parse, parse?, clean.trimmed_eq, ofName?_eq_some.mpr registered]

theorem parse_of_unknown {label : String} (clean : IsTrimmed label)
    (unknown : ∀ c : Category, Text.lowered label ≠ c.name) :
    parse label = .error (.invalidCategory label) := by
  rw [parse, parse?, clean.trimmed_eq]
  cases found : ofName? (Text.lowered label) with
  | some c => exact absurd (ofName?_eq_some.mp found) (unknown c)
  | none => rfl

end Category

namespace SourceEntry

/-- The trimmed text of a field; that of a missing field is empty. -/
def textOf (field : Option String) : String := (field.map Text.trimmed).getD ""

theorem isTrimmed_textOf (field : Option String) : IsTrimmed (textOf field) := by
  cases field with
  | none => rfl
  | some text => exact isTrimmed_ofList_trim text.toList

theorem textOf_some {text : String} (clean : IsTrimmed text) : textOf (some text) = text :=
  clean.trimmed_eq

theorem filled_eq (field : Option String) :
    filled field = if textOf field = "" then none else some (textOf field) := by
  cases field with
  | none => rfl
  | some text =>
    have blank : Text.isBlankText text = true ↔ Text.trimmed text = "" := by
      rw [Text.isBlankText, List.all_eq_true, ← Text.trim_eq_nil_iff, Text.trimmed,
        String.ofList_eq_empty_iff]
    change (if Text.isBlankText text = true then none else some (Text.trimmed text)) =
      if Text.trimmed text = "" then none else some (Text.trimmed text)
    simp only [blank]

/-- Holds of addresses that begin with one of the two schemes. -/
def IsWeb (url : String) : Prop :=
  "http://".toList <+: url.toList ∨ "https://".toList <+: url.toList

theorem isWebUrl_iff (url : String) : isWebUrl url = true ↔ IsWeb url := by
  rw [isWebUrl, Bool.or_eq_true, List.isPrefixOf_iff_prefix, List.isPrefixOf_iff_prefix]
  rfl

/-- What an entry has to meet. -/
structure Sound (entry : SourceEntry) : Prop where
  named : textOf entry.name ≠ ""
  addressed : textOf entry.url ≠ ""
  web : IsWeb (textOf entry.url)
  registered : ∃ c : Category, Text.lowered (textOf entry.category) = c.name

/-- The error of the first check that an entry does not meet. -/
inductive FirstFault (entry : SourceEntry) : Error → Prop where
  | name (missing : textOf entry.name = "") : FirstFault entry (.config .unnamedSource)
  | url (named : textOf entry.name ≠ "") (missing : textOf entry.url = "") :
    FirstFault entry (.config (.sourceWithoutUrl (textOf entry.name)))
  | scheme (named : textOf entry.name ≠ "") (addressed : textOf entry.url ≠ "")
    (other : ¬IsWeb (textOf entry.url)) :
    FirstFault entry (.config (.sourceUrl (textOf entry.name) (textOf entry.url)))
  | noCategory (named : textOf entry.name ≠ "") (addressed : textOf entry.url ≠ "")
    (web : IsWeb (textOf entry.url)) (missing : textOf entry.category = "") :
    FirstFault entry (.config (.sourceWithoutCategory (textOf entry.name)))
  | category (named : textOf entry.name ≠ "") (addressed : textOf entry.url ≠ "")
    (web : IsWeb (textOf entry.url)) (given : textOf entry.category ≠ "")
    (unknown : ∀ c : Category, Text.lowered (textOf entry.category) ≠ c.name) :
    FirstFault entry (.invalidCategory (textOf entry.category))

/-- The source that an entry describes. -/
structure Describes (entry : SourceEntry) (source : Source) : Prop where
  name : source.name = textOf entry.name
  url : source.url = textOf entry.url
  category : source.category.name = Text.lowered (textOf entry.category)
  enabled : source.enabled = entry.enabled.getD true
  priority : source.priority = entry.priority.getD source.category.priority
  trusted : source.trusted = entry.trusted.getD false

section
variable {entry : SourceEntry} {source : Source} {e : Error}

theorem sound_or_fault (entry : SourceEntry) : Sound entry ∨ ∃ e, FirstFault entry e := by
  by_cases named : textOf entry.name = ""
  · exact .inr ⟨_, .name named⟩
  by_cases addressed : textOf entry.url = ""
  · exact .inr ⟨_, .url named addressed⟩
  by_cases web : IsWeb (textOf entry.url)
  · by_cases given : textOf entry.category = ""
    · exact .inr ⟨_, .noCategory named addressed web given⟩
    · by_cases registered : ∃ c : Category, Text.lowered (textOf entry.category) = c.name
      · exact .inl ⟨named, addressed, web, registered⟩
      · exact .inr ⟨_, .category named addressed web given (not_exists.mp registered)⟩
  · exact .inr ⟨_, .scheme named addressed web⟩

theorem resolve_of_fault (fault : FirstFault entry e) : entry.resolve = .error e := by
  cases fault with
  | name missing => simp only [resolve, filled_eq, if_pos missing]
  | url named missing => simp only [resolve, filled_eq, if_neg named, if_pos missing]
  | scheme named addressed other =>
    have astray : ¬isWebUrl (textOf entry.url) = true := mt (isWebUrl_iff _).mp other
    simp only [resolve, filled_eq, if_neg named, if_neg addressed, if_neg astray]
  | noCategory named addressed web missing =>
    have begins := (isWebUrl_iff _).mpr web
    simp only [resolve, filled_eq, if_neg named, if_neg addressed, if_pos begins, if_pos missing]
  | category named addressed web given unknown =>
    have begins := (isWebUrl_iff _).mpr web
    simp only [resolve, filled_eq, if_neg named, if_neg addressed, if_pos begins, if_neg given,
      Category.parse_of_unknown (isTrimmed_textOf _) unknown]

theorem Sound.given (sound : Sound entry) : textOf entry.category ≠ "" := by
  intro missing
  obtain ⟨c, registered⟩ := sound.registered
  rw [missing] at registered
  revert registered
  cases c <;> decide

theorem Sound.exists_describes (sound : Sound entry) : ∃ source, Describes entry source := by
  obtain ⟨c, registered⟩ := sound.registered
  exact ⟨⟨_, _, c, _, entry.priority.getD c.priority, _⟩, rfl, rfl, registered.symm, rfl, rfl, rfl⟩

theorem resolve_of_sound (sound : Sound entry) (describes : Describes entry source) :
    entry.resolve = .ok source := by
  have begins := (isWebUrl_iff _).mpr sound.web
  have parsed : Category.parse (textOf entry.category) = .ok source.category :=
    Category.parse_of_isTrimmed (isTrimmed_textOf _) describes.category.symm
  simp only [resolve, filled_eq, if_neg sound.named, if_neg sound.addressed, if_pos begins,
    if_neg sound.given, parsed, isEnabled]
  rw [← describes.name, ← describes.url, ← describes.enabled, ← describes.priority,
    ← describes.trusted]

/-- The entry that spells out the source of a sound entry is sound, and describes that source again. -/
theorem Describes.again (sound : Sound entry) (describes : Describes entry source) :
    Sound source.entry ∧ Describes source.entry source := by
  have name : textOf source.entry.name = textOf entry.name := by
    rw [Source.entry, describes.name, textOf_some (isTrimmed_textOf _)]
  have url : textOf source.entry.url = textOf entry.url := by
    rw [Source.entry, describes.url, textOf_some (isTrimmed_textOf _)]
  have label : Text.lowered (textOf source.entry.category) = source.category.name :=
    source.category.lowered_name
  refine ⟨⟨?_, ?_, ?_, source.category, label⟩, ?_, ?_, label.symm, rfl, rfl, rfl⟩
  · rw [name]
    exact sound.named
  · rw [url]
    exact sound.addressed
  · rw [url]
    exact sound.web
  · rw [name]
    exact describes.name
  · rw [url]
    exact describes.url

end

/-- Resolving an entry is exact: which entries resolve, with which error the others fail, and to which
source. The source is the fixed point of spelling out and resolving. -/
theorem resolve_exact (entry : SourceEntry) :
    ((∃ source, entry.resolve = .ok source) ↔ Sound entry) ∧
      (∀ e, entry.resolve = .error e ↔ FirstFault entry e) ∧
      ∀ source, entry.resolve = .ok source →
        Describes entry source ∧ IsTrimmed source.name ∧ IsTrimmed source.url ∧
          source.entry.resolve = .ok source := by
  rcases sound_or_fault entry with sound | ⟨e, fault⟩
  · obtain ⟨source, describes⟩ := sound.exists_describes
    have resolved := resolve_of_sound sound describes
    refine ⟨iff_of_true ⟨source, resolved⟩ sound, fun e => ?_, fun other again => ?_⟩
    · rw [resolved]
      refine iff_of_false (by simp) fun fault => ?_
      rw [resolve_of_fault fault] at resolved
      cases resolved
    · rw [resolved, Except.ok.injEq] at again
      subst again
      obtain ⟨soundToo, describesToo⟩ := describes.again sound
      refine ⟨describes, ?_, ?_, resolve_of_sound soundToo describesToo⟩
      · rw [describes.name]
        exact isTrimmed_textOf _
      · rw [describes.url]
        exact isTrimmed_textOf _
  · have refused := resolve_of_fault fault
    refine ⟨iff_of_false ?_ ?_, fun f => ?_, fun source resolved => ?_⟩
    · rintro ⟨source, resolved⟩
      rw [refused] at resolved
      cases resolved
    · intro sound
      obtain ⟨source, describes⟩ := sound.exists_describes
      rw [resolve_of_sound sound describes] at refused
      cases refused
    · rw [refused, Except.error.injEq]
      constructor
      · rintro rfl
        exact fault
      · intro other
        have again := resolve_of_fault other
        rw [refused, Except.error.injEq] at again
        exact again
    · rw [refused] at resolved
      cases resolved

/-- An entry with blanks around its texts, a category in mixed case and defaults. -/
def paddedEntry : SourceEntry where
  name := some "\tHome list\u3000"
  url := some " https://lists.example/home.txt\n"
  category := some " MoBile"

def paddedSource : Source where
  name := "Home list"
  url := "https://lists.example/home.txt"
  category := .mobile
  enabled := true
  priority := 25
  trusted := false

theorem resolve_exact_padded :
    paddedEntry.resolve = .ok paddedSource ∧ paddedSource.entry.resolve = .ok paddedSource := by
  have resolved : paddedEntry.resolve = .ok paddedSource := by decide
  obtain ⟨-, -, described⟩ := resolve_exact paddedEntry
  obtain ⟨-, -, -, again⟩ := described paddedSource resolved
  exact ⟨resolved, again⟩

end SourceEntry

end Blocklist
