import Blocklist.Proofs.Export.Formats

/-!
The formats that identifiers denote, in the order of their first mention. Main statement: exactly these are
resolved, each once, the other identifiers are kept apart, and more identifiers only add at the ends.
-/

namespace Blocklist

namespace Format

/-- Holds of an identifier and a format that it denotes. The word `all` denotes every format; it may be
written in any ASCII case, and a name in any case, with blanks around it. -/
def Denoted (id : String) (f : Format) : Prop :=
  (Text.trim id.toList).map Char.toLower = "all".toList ∨ Text.lowered (Text.trimmed id) = f.name

instance (id : String) (f : Format) : Decidable (Denoted id f) :=
  inferInstanceAs (Decidable (_ ∨ _))

theorem nodup_all : all.Nodup := by decide

/-- The formats that an identifier denotes, in their own order. -/
def denotedBy (id : String) : List Format := all.filter (Denoted id ·)

theorem mem_denotedBy {id : String} {f : Format} : f ∈ denotedBy id ↔ Denoted id f := by
  rw [denotedBy, List.mem_filter, decide_eq_true_eq, and_iff_right (mem_all f)]

theorem nodup_denotedBy (id : String) : (denotedBy id).Nodup := nodup_all.filter _

theorem ofName?_eq_some {name : String} {f : Format} : ofName? name = some f ↔ name = f.name := by
  constructor
  · intro found
    unfold ofName? at found
    have named := List.find?_some found
    exact (of_decide_eq_true named).symm
  · rintro rfl
    exact ofName?_name f

theorem filter_name_eq (f : Format) : (all.filter fun g => f.name = g.name) = [f] := by
  cases f <;> rfl

/-- Expanding an identifier gives the formats that it denotes, and fails if there are none. -/
theorem expand_eq (id : String) :
    expand id = .ok (denotedBy id) ∧ denotedBy id ≠ [] ∨
      expand id = .error (.unsupportedFormat id) ∧ denotedBy id = [] := by
  unfold expand denotedBy
  by_cases everything : (Text.trim id.toList).map Char.toLower = "all".toList
  · have each : all.filter (Denoted id ·) = all :=
      List.filter_eq_self.mpr fun f _ => decide_eq_true (.inl everything)
    rw [isAll, if_pos (decide_eq_true everything), each]
    exact .inl ⟨rfl, List.cons_ne_nil _ _⟩
  · have byName : ∀ f, Denoted id f ↔ Text.lowered (Text.trimmed id) = f.name :=
      fun f => or_iff_right everything
    rw [isAll, if_neg (mt of_decide_eq_true everything), parse, parse?]
    cases found : ofName? (Text.lowered (Text.trimmed id)) with
    | some f =>
      have single : all.filter (Denoted id ·) = [f] := by
        simp only [byName, ofName?_eq_some.mp found]
        exact filter_name_eq f
      rw [single]
      exact .inl ⟨rfl, List.cons_ne_nil _ _⟩
    | none =>
      have nothing : all.filter (Denoted id ·) = [] := by
        refine List.filter_eq_nil_iff.mpr fun f _ denoted => ?_
        rw [decide_eq_true_eq, byName] at denoted
        rw [ofName?_eq_some.mpr denoted] at found
        cases found
      exact .inr ⟨rfl, nothing⟩

/-- Holds of the identifiers that denote no format. -/
def Unknown (id : String) : Prop := ∀ f, ¬Denoted id f

theorem unknown_iff (id : String) : Unknown id ↔ denotedBy id = [] := by
  rw [List.eq_nil_iff_forall_not_mem]
  exact forall_congr' fun f => not_congr mem_denotedBy.symm

instance (id : String) : Decidable (Unknown id) := decidable_of_iff' _ (unknown_iff id)

end Format

namespace ExportOptions

open Format

section
variable {ids : List String} {id : String} {f : Format}

theorem addMissing_eq (formats : List Format) {more : List Format} (distinct : more.Nodup) :
    addMissing formats more = formats ++ more.filter (· ∉ formats) := by
  unfold addMissing
  induction more generalizing formats with
  | nil => exact (List.append_nil formats).symm
  | cons f more ih =>
    rw [List.nodup_cons] at distinct
    rw [List.foldl_cons]
    by_cases present : f ∈ formats
    · rw [if_pos (List.contains_iff_mem.mpr present), ih formats distinct.2,
        List.filter_cons_of_neg (by simpa using present)]
    · have later : more.filter (· ∉ formats ++ [f]) = more.filter (· ∉ formats) := by
        refine List.filter_congr fun g member => ?_
        have other : g ≠ f := by
          rintro rfl
          exact distinct.1 member
        simp [other]
      rw [if_neg (mt List.contains_iff_mem.mp present), ih (formats ++ [f]) distinct.2, later,
        List.filter_cons_of_pos (by simpa using present), List.append_assoc, List.singleton_append]

/-- One more identifier adds the formats that it denotes and that are still missing. -/
theorem fst_resolveIds_concat (ids : List String) (id : String) :
    (resolveIds (ids ++ [id])).1 =
      (resolveIds ids).1 ++ (denotedBy id).filter (· ∉ (resolveIds ids).1) := by
  rw [resolveIds_concat]
  rcases expand_eq id with ⟨expanded, -⟩ | ⟨failed, nothing⟩
  · rw [expanded]
    exact addMissing_eq _ (nodup_denotedBy id)
  · rw [failed, nothing]
    exact (List.append_nil _).symm

theorem mem_resolveIds (ids : List String) (f : Format) :
    f ∈ (resolveIds ids).1 ↔ ∃ id ∈ ids, Denoted id f := by
  induction ids using List.reverseRecOn with
  | nil => exact iff_of_false List.not_mem_nil fun ⟨id, listed, _⟩ => List.not_mem_nil listed
  | append_singleton ids id ih =>
    rw [fst_resolveIds_concat, List.mem_append, List.mem_filter, decide_eq_true_eq, mem_denotedBy,
      ih]
    have mentioned : (∃ other ∈ ids ++ [id], Denoted other f) ↔
        (∃ other ∈ ids, Denoted other f) ∨ Denoted id f := by
      simp only [List.mem_append, List.mem_singleton, or_and_right, exists_or, exists_eq_left]
    rw [mentioned]
    constructor
    · rintro (earlier | ⟨denoted, -⟩)
      · exact .inl earlier
      · exact .inr denoted
    · intro either
      by_cases earlier : ∃ other ∈ ids, Denoted other f
      · exact .inl earlier
      · exact .inr ⟨either.resolve_left earlier, earlier⟩

theorem snd_resolveIds_eq (ids : List String) :
    (resolveIds ids).2 = ids.filter fun id => Unknown id := by
  rw [snd_resolveIds, unrecognised]
  refine List.filter_congr fun id _ => ?_
  rcases expand_eq id with ⟨expanded, some⟩ | ⟨failed, nothing⟩
  · rw [expanded, decide_eq_false (mt (unknown_iff id).mp some)]
    rfl
  · rw [failed, decide_eq_true ((unknown_iff id).mpr nothing)]
    rfl

/-- The position of the first identifier that denotes a format. -/
def firstMention (ids : List String) (f : Format) : Nat := ids.findIdx (Denoted · f)

theorem firstMention_lt (mentioned : ∃ id ∈ ids, Denoted id f) : firstMention ids f < ids.length := by
  apply List.findIdx_lt_length.mpr
  obtain ⟨id, listed, denoted⟩ := mentioned
  exact ⟨id, listed, decide_eq_true denoted⟩

theorem firstMention_append (mentioned : ∃ id ∈ ids, Denoted id f) (more : List String) :
    firstMention (ids ++ more) f = firstMention ids f := by
  rw [firstMention, List.findIdx_append]
  exact if_pos (firstMention_lt mentioned)

theorem firstMention_concat (fresh : ¬∃ id ∈ ids, Denoted id f) (denoted : Denoted id f) :
    firstMention (ids ++ [id]) f = ids.length := by
  have absent : ids.findIdx (Denoted · f) = ids.length := by
    apply List.findIdx_eq_length.mpr
    intro other listed
    exact decide_eq_false fun named => fresh ⟨other, listed, named⟩
  rw [firstMention, List.findIdx_append, absent, if_neg (Nat.lt_irrefl _), List.findIdx_cons,
    decide_eq_true denoted]
  exact Nat.zero_add _

/-- Holds of two formats if the first is mentioned earlier, or by the same identifier and declared
earlier. -/
def Precedes (ids : List String) (f g : Format) : Prop :=
  firstMention ids f < firstMention ids g ∨
    firstMention ids f = firstMention ids g ∧ all.idxOf f < all.idxOf g

theorem pairwise_denotedBy (id : String) :
    (denotedBy id).Pairwise fun f g => all.idxOf f < all.idxOf g := by
  have declared : all.Pairwise fun f g => all.idxOf f < all.idxOf g := by decide
  exact declared.filter _

theorem pairwise_resolveIds (ids : List String) :
    (resolveIds ids).1.Pairwise (Precedes ids) := by
  induction ids using List.reverseRecOn with
  | nil => exact .nil
  | append_singleton ids id ih =>
    have earlier : ∀ f ∈ (resolveIds ids).1, ∃ other ∈ ids, Denoted other f := fun f member =>
      (mem_resolveIds ids f).mp member
    have later : ∀ f ∈ (denotedBy id).filter (· ∉ (resolveIds ids).1),
        firstMention (ids ++ [id]) f = ids.length := by
      intro f member
      rw [List.mem_filter, decide_eq_true_eq, mem_denotedBy, mem_resolveIds] at member
      exact firstMention_concat member.2 member.1
    rw [fst_resolveIds_concat, List.pairwise_append]
    refine ⟨?_, ?_, fun f old g new => .inl ?_⟩
    · refine ih.imp_of_mem fun {f g} first second before => ?_
      rw [Precedes, firstMention_append (earlier f first), firstMention_append (earlier g second)]
      exact before
    · refine ((pairwise_denotedBy id).filter _).imp_of_mem fun {f g} first second before => ?_
      exact .inr ⟨(later f first).trans (later g second).symm, before⟩
    · rw [firstMention_append (earlier f old), later g new]
      exact firstMention_lt (earlier f old)

theorem fst_resolveIds_extended (ids more : List String) :
    (resolveIds ids).1 <+: (resolveIds (ids ++ more)).1 := by
  induction more using List.reverseRecOn with
  | nil => simp only [List.append_nil, List.prefix_rfl]
  | append_singleton more id ih =>
    rw [← List.append_assoc, fst_resolveIds_concat]
    exact ih.trans (List.prefix_append _ _)

end

/-- What the formats are that identifiers resolve to. -/
structure Resolved (ids : List String) (formats : List Format) : Prop where
  once : formats.Nodup
  exact : ∀ f, f ∈ formats ↔ ∃ id ∈ ids, Denoted id f
  ordered : formats.Pairwise (Precedes ids)

/-- The formats to publish in are those that the identifiers denote, each once and in the order of their
first mention; the identifiers that denote none are skipped, each time. More identifiers only add. -/
theorem resolveFormats_exact (o : ExportOptions) :
    Resolved o.identifiers o.resolveFormats.1 ∧
      o.resolveFormats.2 = o.identifiers.filter (fun id => Unknown id) ∧
      (o.formats = [] → o.resolveFormats = ([.adguard], [])) ∧
      (o.formats ≠ [] → ∀ more,
        o.resolveFormats.1 <+: { o with formats := o.formats ++ more }.resolveFormats.1 ∧
        o.resolveFormats.2 <+: { o with formats := o.formats ++ more }.resolveFormats.2) := by
  refine ⟨⟨nodup_resolveIds _, mem_resolveIds _, pairwise_resolveIds _⟩, snd_resolveIds_eq _, ?_, ?_⟩
  · intro none
    rw [resolveFormats, identifiers, none]
    decide +kernel
  · intro some more
    have given : o.identifiers = o.formats := if_neg (mt List.isEmpty_iff.mp some)
    have longer : { o with formats := o.formats ++ more }.identifiers = o.formats ++ more :=
      if_neg fun none => some (List.append_eq_nil_iff.mp (List.isEmpty_iff.mp none)).1
    rw [resolveFormats, resolveFormats, given, longer]
    refine ⟨fst_resolveIds_extended _ _, ?_⟩
    rw [snd_resolveIds_eq, snd_resolveIds_eq, List.filter_append]
    exact List.prefix_append _ _

/-- Names in several cases around `all`, with one identifier twice that denotes nothing. -/
def mixedOptions : ExportOptions where
  formats := [" ABP", "xml", "dnsmasq", "aLL\t", "xml", "Hosts"]

theorem resolveFormats_exact_mixed :
    mixedOptions.formats ≠ [] ∧
      mixedOptions.resolveFormats =
        ([.abp, .dnsmasq, .hosts, .unbound, .bind, .privoxy, .shadowrocket, .adguard],
          ["xml", "xml"]) ∧
      ["xml", "xml"] <+:
        { mixedOptions with formats := mixedOptions.formats ++ ["pihole"] }.resolveFormats.2 := by
  have given : mixedOptions.formats ≠ [] := by decide
  have resolved : mixedOptions.resolveFormats =
      ([.abp, .dnsmasq, .hosts, .unbound, .bind, .privoxy, .shadowrocket, .adguard],
        ["xml", "xml"]) := by
    decide +kernel
  obtain ⟨-, -, -, longer⟩ := resolveFormats_exact mixedOptions
  have added := (longer given ["pihole"]).2
  rw [resolved] at added
  exact ⟨given, resolved, added⟩

end ExportOptions

end Blocklist
