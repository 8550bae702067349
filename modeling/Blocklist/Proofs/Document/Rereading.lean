import Blocklist.Document
import Blocklist.Proofs.Intake.Taking
import Blocklist.Proofs.Text.Lines

/-!
Documents that are taken in again. The head of a document is a list of comments, and the formats that keep
the text of every rule mark them as lists of rules do. Main statement: a document in one of these formats
has the texts of its records as its rule lines, in order, and no other rule line, so that a store which
takes it in comes to list these texts.
-/

namespace Blocklist

/-- Where rule lines stand behind lines that are none, the texts of a body are theirs. -/
theorem Arrival.texts_of_lines (source : Source) (now : Instant) {body : List Char}
    {others : List (List Char)} {records : List Record}
    (lines : Text.lines body = others ++ records.map fun r => r.raw.toList)
    (none : ∀ line ∈ others, Rule.isRuleLine (Text.trim line) = false)
    (rules : ∀ r ∈ records, IsTrimmed r.raw ∧ '\n' ∉ r.raw.toList ∧
      Rule.isRuleLine r.raw.toList = true) :
    (Arrival.mk source now body).texts = records.map Record.raw := by
  have ahead : (others.map Text.trim).filter Rule.isRuleLine = [] := by
    rw [List.filter_eq_nil_iff, List.forall_mem_map]
    intro line member
    rw [none line member]
    exact Bool.false_ne_true
  have same : records.map (Text.trim ∘ fun r => r.raw.toList) =
      records.map fun r => r.raw.toList :=
    List.map_congr_left fun r member => (rules r member).1
  have all : ((records.map fun r => r.raw.toList).map Text.trim).filter Rule.isRuleLine =
      records.map fun r => r.raw.toList := by
    rw [List.map_map, same, List.filter_eq_self, List.forall_mem_map]
    exact fun r member => (rules r member).2.2
  calc
    (Arrival.mk source now body).texts
    _ = (((others.map Text.trim) ++ (records.map fun r => r.raw.toList).map Text.trim).filter
          Rule.isRuleLine).map String.ofList := by rw [texts, lines, List.map_append]
    _ = (records.map fun r => r.raw.toList).map String.ofList := by
      rw [List.filter_append, ahead, all, List.nil_append]
    _ = records.map Record.raw := by
      rw [List.map_map]
      exact List.map_congr_left fun r _ => String.ofList_toList

namespace Metadata

/-- The entries that are texts. -/
def texts (m : Metadata) : List String :=
  [m.title, m.description, m.homepage, m.version, m.lastUpdated] ++ m.website.toList ++
    m.madeby.toList ++ m.expires.toList ++ m.license.toList

end Metadata

namespace Document

/-- The labels and values in the head of a document. -/
def entries (m : Metadata) : List (String × String) :=
  [("Title", m.title), ("Description", m.description), ("Homepage", m.homepage),
    ("Version", m.version), ("Last updated", m.lastUpdated)] ++
  m.website.toList.map (Prod.mk "Website") ++ m.madeby.toList.map (Prod.mk "Made by") ++
  m.expires.toList.map (Prod.mk "Expires") ++ m.license.toList.map (Prod.mk "License") ++
  m.stats.toList.flatMap fun s => [("Total rules", toString s.totalRules),
    ("Blocking rules", toString s.blockingRules), ("Unblocking rules", toString s.unblockingRules)]

theorem optionalComment_eq (f : Format) (label : String) (value : Option String) :
    optionalComment f label value =
      (value.toList.map (Prod.mk label)).map fun e => comment f e.1 e.2 := by
  cases value <;> rfl

theorem statsComments_eq (f : Format) (stats : Option ListStats) :
    statsComments f stats =
      (stats.toList.flatMap fun s => [("Total rules", toString s.totalRules),
        ("Blocking rules", toString s.blockingRules),
        ("Unblocking rules", toString s.unblockingRules)]).map fun e => comment f e.1 e.2 := by
  cases stats <;> rfl

/-- The head of a document is its entries, each as a comment. -/
theorem headLines_eq (m : Metadata) (f : Format) :
    headLines m f =
      (entries m).map (fun e => comment f e.1 e.2) ++ if f = .unbound then ["server:"] else [] := by
  rw [headLines, entries, optionalComment_eq, optionalComment_eq, optionalComment_eq,
    optionalComment_eq, statsComments_eq]
  simp only [List.map_append, List.map_cons, List.map_nil]

theorem not_mem_toString (n : Nat) : '\n' ∉ (toString n).toList := by
  intro member
  rw [Nat.toString_eq_repr, Nat.toList_repr] at member
  have digit := Nat.isDigit_of_mem_toDigits (by decide) (by decide) member
  exact absurd digit (by decide)

theorem map_snd_entries (m : Metadata) :
    (entries m).map Prod.snd = m.texts ++ m.stats.toList.flatMap fun s =>
      [toString s.totalRules, toString s.blockingRules, toString s.unblockingRules] := by
  simp only [entries, Metadata.texts, List.map_append, List.map_cons, List.map_nil, List.map_map,
    List.map_flatMap, Function.comp_def, List.map_id']

theorem not_mem_label {m : Metadata} : ∀ e ∈ entries m, '\n' ∉ e.1.toList := by
  have counted : ∀ s : ListStats, ∀ e ∈ [("Total rules", toString s.totalRules),
      ("Blocking rules", toString s.blockingRules),
      ("Unblocking rules", toString s.unblockingRules)], '\n' ∉ e.1.toList := by
    simp
  unfold entries
  simp only [List.forall_mem_append, List.forall_mem_map, List.mem_flatMap]
  refine ⟨⟨⟨⟨⟨by simp, ?_⟩, ?_⟩, ?_⟩, ?_⟩, fun e ⟨s, _, member⟩ => counted s e member⟩
  all_goals exact fun _ _ => by decide

/-- The comments of entries without line feeds are lines. -/
theorem not_mem_comment {m : Metadata} (oneLine : ∀ text ∈ m.texts, '\n' ∉ text.toList) (f : Format) :
    ∀ e ∈ entries m, '\n' ∉ (comment f e.1 e.2).toList := by
  intro e member
  have label := not_mem_label e member
  have value : '\n' ∉ e.2.toList := by
    have listed : e.2 ∈ (entries m).map Prod.snd := List.mem_map_of_mem member
    rw [map_snd_entries, List.mem_append, List.mem_flatMap] at listed
    rcases listed with text | ⟨s, -, count⟩
    · exact oneLine e.2 text
    · simp only [List.mem_cons, List.not_mem_nil, or_false] at count
      rcases count with same | same | same <;>
      · rw [same]
        exact not_mem_toString _
  have mark : '\n' ∉ f.commentMark.toList := by cases f <;> decide
  simp only [comment, String.toList_append, List.mem_append, not_or]
  exact ⟨⟨⟨⟨mark, by decide⟩, label⟩, by decide⟩, value⟩

theorem toList_unlines (written : List String) :
    (unlines written).toList = (written.map String.toList).flatMap fun line => line ++ ['\n'] := by
  rw [unlines, String.toList_join, List.flatMap_map, List.flatMap_map]
  simp only [String.toList_append]
  rfl

theorem toList_text (records : List Record) (m : Metadata) (f : Format) :
    (text records m f).toList =
      ((headLines m f).map String.toList ++ [] :: records.map fun r => (ruleLine r f).toList).flatMap
        fun line => line ++ ['\n'] := by
  rw [text, head, String.toList_append, String.toList_append, toList_unlines, toList_unlines,
    List.flatMap_append, List.flatMap_cons, List.map_map]
  simp only [List.append_assoc]
  rfl

/-- Holds of the formats that keep the text of every rule. -/
def KeepsText (f : Format) : Prop := f = .adguard ∨ f = .abp

section
variable {f : Format} {m : Metadata} {records : List Record} (keeps : KeepsText f)
include keeps

theorem ruleLine_of_keepsText (r : Record) : ruleLine r f = r.raw := by
  unfold ruleLine
  rcases keeps with rfl | rfl
  all_goals
    split
    · rfl
    · split <;> rfl

theorem headLines_of_keepsText :
    headLines m f = (entries m).map fun e => comment f e.1 e.2 := by
  rw [headLines_eq]
  rcases keeps with rfl | rfl
  all_goals rw [if_neg (by decide), List.append_nil]

/-- A comment is no rule line, whatever its value ends in. -/
theorem isRuleLine_comment (label value : String) :
    Rule.isRuleLine (Text.trim (Text.dropReturn (comment f label value).toList)) = false := by
  have marked : ∃ rest, (comment f label value).toList = '!' :: rest := by
    rcases keeps with rfl | rfl
    all_goals
      simp only [comment, String.toList_append]
      exact ⟨_, rfl⟩
  obtain ⟨rest, mark⟩ := marked
  obtain ⟨kept, same⟩ := Text.dropReturn_cons (c := '!') (by decide) rest
  obtain ⟨left, trimmed⟩ := Text.trim_cons (c := '!') (by decide) kept
  rw [mark, same, trimmed]
  rfl

/-- The lines of a document that keeps the texts: its head, an empty line, and the texts. -/
theorem lines_text (oneLine : ∀ text ∈ m.texts, '\n' ∉ text.toList)
    (trimmed : ∀ r ∈ records, IsTrimmed r.raw) (whole : ∀ r ∈ records, '\n' ∉ r.raw.toList) :
    Text.lines (text records m f).toList =
      (entries m).map (fun e => Text.dropReturn (comment f e.1 e.2).toList) ++
        [] :: records.map fun r => r.raw.toList := by
  rw [toList_text, Text.lines_flatMap, headLines_of_keepsText keeps, List.map_append, List.map_cons,
    List.map_map, List.map_map, List.map_map]
  · congr 2
    refine List.map_congr_left fun r member => ?_
    rw [Function.comp_apply, ruleLine_of_keepsText keeps]
    exact Text.dropReturn_of_trim (trimmed r member)
  · refine List.forall_mem_append.mpr ⟨?_, List.forall_mem_cons.mpr ⟨List.not_mem_nil, ?_⟩⟩
    · rw [headLines_of_keepsText keeps, List.map_map, List.forall_mem_map]
      exact not_mem_comment oneLine f
    · rw [List.forall_mem_map]
      intro r member
      rw [ruleLine_of_keepsText keeps]
      exact whole r member

end

/-- A document in a format that keeps the texts has one rule line for each of its records, with the
record's text, in their order, and neither its head nor the empty line after it is taken for a rule. What
a source takes in of it are the rules of these texts: they are counted, seen and written, and nothing else
is. -/
theorem text_reread (records : List Record) (m : Metadata) (f : Format) (keeps : KeepsText f)
    (oneLine : ∀ text ∈ m.texts, '\n' ∉ text.toList)
    (rules : ∀ r ∈ records, IsTrimmed r.raw ∧ '\n' ∉ r.raw.toList ∧
      Rule.isRuleLine r.raw.toList = true) :
    (∃ others, Text.lines (text records m f).toList =
        others ++ records.map (fun r => r.raw.toList) ∧
      ∀ line ∈ others, Rule.isRuleLine (Text.trim line) = false) ∧
    ∀ (source : Source) (now : Instant),
      Intake.candidates source now (text records m f).toList =
        source.rules now (records.map Record.raw) ∧
      (Intake.candidates source now (text records m f).toList).map Record.raw =
        records.map Record.raw ∧
      ∀ (σ : Type) [RecordStore σ] (store : σ) (seen : Names), RecordStore.Reliable store →
        Intake.TakesIn source now (records.map Record.raw) seen store
          (Intake.takeBody source now (text records m f).toList seen store) := by
  have trimmed : ∀ r ∈ records, IsTrimmed r.raw := fun r member => (rules r member).1
  have lines := lines_text keeps oneLine trimmed fun r member => (rules r member).2.1
  have others : ∀ line ∈ (entries m).map (fun e => Text.dropReturn (comment f e.1 e.2).toList) ++ [[]],
      Rule.isRuleLine (Text.trim line) = false := by
    rw [List.forall_mem_append, List.forall_mem_map]
    exact ⟨fun e _ => isRuleLine_comment keeps e.1 e.2, by decide⟩
  rw [List.append_cons] at lines
  refine ⟨⟨_, lines, others⟩, fun source now => ?_⟩
  have texts := Arrival.texts_of_lines source now lines others rules
  have candidates := (Arrival.mk source now (text records m f).toList).candidates_eq_rules
  have raws := (Arrival.mk source now (text records m f).toList).map_raw_candidates
  rw [texts] at candidates raws
  dsimp only [Arrival.candidates] at candidates raws
  refine ⟨candidates, raws, fun σ _ store seen reliable => ?_⟩
  have took := Intake.takeBody_takesIn reliable (.mk source now (text records m f).toList) seen
  rw [texts] at took
  dsimp only at took
  exact took

/-- Entries with counts, whose title ends in a carriage return. -/
def returnTitled : Metadata :=
  { Metadata.default "2024-02-01" with title := "Hosts\r", stats := some ⟨3, 2, 1⟩ }

def exported : List Record :=
  [Record.sampled "||a.com^" .advertising 0, Record.sampled "@@||b.com^\r$document" .privacy 1,
    Record.sampled "||c.com^" .advertising 1]

/-- A text that the document does not have, and one that it has. -/
def stock : Arrival :=
  ⟨Source.ofCategory "base" .dns, (Date.sampled 0).start, "||d.com^\n||c.com^".toList⟩

def stocked : Store := ({} : Store).ingest stock

theorem text_reread_returnTitled :
    (∀ text ∈ returnTitled.texts, '\n' ∉ text.toList) ∧
    (∀ r ∈ exported, IsTrimmed r.raw ∧ '\n' ∉ r.raw.toList ∧
      Rule.isRuleLine r.raw.toList = true) ∧
    RecordStore.Reliable stocked ∧ stocked.Holds ["||d.com^", "||c.com^"] ∧
    CollisionFree (["||d.com^", "||c.com^"] ++ exported.map Record.raw) ∧
    (∃ counts, (Intake.takeBody (Source.ofCategory "again" .custom) (Date.sampled 2).start
      (text exported returnTitled .abp).toList .empty stocked).outcome = .ok (3, counts) ∧
        counts.total = 3) ∧
    (RecordStore.records (Intake.takeBody (Source.ofCategory "again" .custom) (Date.sampled 2).start
      (text exported returnTitled .abp).toList .empty stocked).store).map Record.raw =
        ["||d.com^", "||c.com^", "||a.com^", "@@||b.com^\r$document"] := by
  have oneLine : ∀ text ∈ returnTitled.texts, '\n' ∉ text.toList := by decide
  have rules : ∀ r ∈ exported, IsTrimmed r.raw ∧ '\n' ∉ r.raw.toList ∧
      Rule.isRuleLine r.raw.toList = true := by
    unfold IsTrimmed
    decide
  have free : CollisionFree (["||d.com^", "||c.com^"] ++ exported.map Record.raw) := by
    decide +kernel
  have texts : ([] ++ [stock]).flatMap Arrival.texts = ["||d.com^", "||c.com^"] := by
    decide +kernel
  have grown : Store.Grown ([] ++ [stock]) stocked := .ingest stock .empty
  have known : CollisionFree (([] ++ [stock]).flatMap Arrival.texts) := by
    rw [texts]
    exact free.mono (List.subset_append_left _ _)
  have holds := grown.holds known
  rw [texts] at holds
  obtain ⟨-, again⟩ := text_reread exported returnTitled .abp (.inr rfl) oneLine rules
  have took := (again (Source.ofCategory "again" .custom) (Date.sampled 2).start).2.2 Store stocked
    .empty (Store.reliable stocked)
  have inMemory : ∀ s : Store, Backed.memory s = s := fun _ => rfl
  obtain ⟨listed, -⟩ := took.listed ((inMemory stocked).symm ▸ holds) free
  have order : (["||d.com^", "||c.com^"] ++ exported.map Record.raw).eraseDups =
      ["||d.com^", "||c.com^", "||a.com^", "@@||b.com^\r$document"] := by decide +kernel
  rw [order] at listed
  exact ⟨oneLine, rules, Store.reliable stocked, holds, free, took.counted,
    listed⟩

end Document

end Blocklist
