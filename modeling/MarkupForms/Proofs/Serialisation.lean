import Mathlib.Data.Set.List
import MarkupForms.Proofs.Settings
import MarkupForms.Proofs.Stacks

/-!
# Configurations that survive being written

A configuration is written as a map, with the tags without a body in order, and read from it again.
Named arguments are checked less strictly than a map: they may list any scalars as tags without a
body, while a map has to list texts.  So a configuration survives exactly when these tags are texts.
Of two such configurations, the ones that are written alike are the ones that agree: the set of the
tags decides, in whatever order they were given and however often.

* `Key.inOrder_eq_iff` : lists of texts without repetitions are the same in order when they have the
  same elements.
* `Config.survives_iff` : which configurations survive.
* `Config.toData_eq_iff` : which configurations are written alike.
* `Config.serialisation_exact` : both of them, for all configurations from named arguments.
* `Config.not_forall_survive` : a number among the tags is accepted, and does not survive.
-/

namespace MarkupForms

namespace Key

/-! ## Texts without repetitions -/

theorem text_same_iff {k : Key} {s : String} : (Key.text s).same k = true ↔ k = .text s := by
  cases k with
  | text t => rw [same_text, text.injEq, eq_comm]
  | _ => simp [same, magnitude?]

/-- A text is in a list of keys when it is one of them. -/
theorem isIn_text_iff {s : String} {ks : List Key} :
    (Key.text s).isIn ks = true ↔ .text s ∈ ks := by
  simp [isIn, text_same_iff]

/-- Keys are the texts of a list when each of them is a text. -/
theorem exists_map_text_iff {ks : List Key} :
    (∃ tags : List String, ks = tags.map .text) ↔ ∀ k ∈ ks, ∃ s, k = .text s := by
  have hrange := congrArg (ks ∈ ·) (Set.range_list_map Key.text)
  simpa [eq_comm] using hrange

theorem distinct_concat (ks : List Key) (k : Key) :
    distinct (ks ++ [k]) =
      if k.isIn (distinct ks) then distinct ks else distinct ks ++ [k] := by
  rw [distinct, List.foldl_append]
  rfl

theorem distinct_map_text (tags : List String) :
    distinct (tags.map .text) = tags.eraseDups.map .text := by
  induction tags using List.reverseRecOn with
  | nil => rfl
  | append_singleton tags s ih =>
    have hin : (Key.text s).isIn (tags.eraseDups.map .text) = true ↔ s ∈ tags := by
      simp [isIn_text_iff]
    rw [List.map_append, List.map_singleton, distinct_concat, ih, Entries.eraseDups_concat]
    by_cases hs : s ∈ tags
    · rw [if_pos (hin.2 hs), if_pos hs]
    · rw [if_neg (mt hin.1 hs), if_neg hs, List.map_append, List.map_singleton]

/-- No key is lost for the question whether all are texts: the same key as a text is this text. -/
theorem forall_distinct_iff {ks : List Key} :
    (∀ k ∈ distinct ks, ∃ s, k = .text s) ↔ ∀ k ∈ ks, ∃ s, k = .text s := by
  induction ks using List.reverseRecOn with
  | nil => simp [distinct]
  | append_singleton ks k ih =>
    rw [List.forall_mem_append, ← ih, List.forall_mem_singleton, distinct_concat]
    split
    · rename_i hin
      rw [iff_self_and]
      intro htexts
      obtain ⟨tags, htags⟩ := exists_map_text_iff.2 htexts
      rw [htags, isIn_map_text_iff] at hin
      exact hin.imp fun s hs => hs.2
    · rw [List.forall_mem_append, List.forall_mem_singleton]

/-! ## Texts in order -/

/-- Texts in order. -/
def inOrder (tags : List String) : List String :=
  tags.mergeSort fun s t => decide (s ≤ t)

theorem inOrder_perm (tags : List String) : (inOrder tags).Perm tags :=
  List.mergeSort_perm _ _

theorem pairwise_inOrder (tags : List String) : (inOrder tags).Pairwise (· ≤ ·) := by
  refine (List.pairwise_mergeSort ?_ ?_ tags).imp of_decide_eq_true
  · intro s t u hst htu
    exact decide_eq_true (String.le_trans (of_decide_eq_true hst) (of_decide_eq_true htu))
  · intro s t
    simpa using String.le_total s t

/-- There is one way to put texts in order. -/
theorem eq_inOrder {tags sorted : List String} (hperm : sorted.Perm tags)
    (h : sorted.Pairwise (· ≤ ·)) : sorted = inOrder tags :=
  List.Perm.eq_of_pairwise (fun _ _ _ _ => String.le_antisymm) h (pairwise_inOrder tags)
    (hperm.trans (inOrder_perm tags).symm)

/-- A text is put among others that are in order, and they are in order with it. -/
theorem exists_insert?_text (s : String) {sorted : List String} (h : sorted.Pairwise (· ≤ ·)) :
    ∃ tags : List String, insert? (.text s) (sorted.map .text) = .ok (tags.map .text) ∧
      tags.Perm (s :: sorted) ∧ tags.Pairwise (· ≤ ·) := by
  induction sorted with
  | nil => exact ⟨[s], rfl, .refl _, List.pairwise_singleton _ s⟩
  | cons t sorted ih =>
    obtain ⟨hfirst, hrest⟩ := List.pairwise_cons.1 h
    rw [List.map_cons, insert?, less?]
    by_cases hlt : s < t
    · have hle := Std.le_of_lt hlt
      refine ⟨s :: t :: sorted, by simp [hlt, bind, Except.bind]; rfl, .refl _,
        List.pairwise_cons.2 ⟨?_, h⟩⟩
      exact List.forall_mem_cons.2 ⟨hle, fun u hu => String.le_trans hle (hfirst u hu)⟩
    · obtain ⟨tags, hmade, hperm, hsorted⟩ := ih hrest
      refine ⟨t :: tags, by simp [hlt, hmade, bind, Except.bind]; rfl,
        (hperm.cons t).trans (.swap s t sorted), List.pairwise_cons.2 ⟨fun u hu => ?_, hsorted⟩⟩
      rcases List.mem_cons.1 (hperm.mem_iff.1 hu) with rfl | hu
      · exact String.not_lt.1 hlt
      · exact hfirst u hu

theorem exists_foldlM_insert?_text (tags : List String) {sorted : List String}
    (h : sorted.Pairwise (· ≤ ·)) :
    ∃ all : List String, (tags.map Key.text).foldlM (fun sorted k => k.insert? sorted)
      (sorted.map .text) = .ok (all.map .text) ∧ all.Perm (sorted ++ tags) ∧
        all.Pairwise (· ≤ ·) := by
  induction tags generalizing sorted with
  | nil => exact ⟨sorted, rfl, by rw [List.append_nil], h⟩
  | cons s tags ih =>
    obtain ⟨next, hnext, hperm, hnextSorted⟩ := exists_insert?_text s h
    obtain ⟨all, hall, hallPerm, hallSorted⟩ := ih hnextSorted
    refine ⟨all, ?_, hallPerm.trans ?_, hallSorted⟩
    · rw [List.map_cons, List.foldlM_cons, hnext]
      exact hall
    · rw [List.append_cons]
      exact (hperm.trans (List.perm_append_singleton s sorted).symm).append_right tags

/-- Texts can be put in order. -/
theorem sort?_map_text (tags : List String) :
    sort? (tags.map .text) = .ok ((inOrder tags).map .text) := by
  obtain ⟨all, hall, hperm, hsorted⟩ := exists_foldlM_insert?_text tags .nil
  have heq : all = inOrder tags := eq_inOrder hperm hsorted
  exact heq ▸ hall

/-- Lists of texts without repetitions are the same in order when they have the same elements. -/
theorem inOrder_eq_iff {tags tags' : List String} (h : tags.Nodup) (h' : tags'.Nodup) :
    inOrder tags = inOrder tags' ↔ ∀ s, s ∈ tags ↔ s ∈ tags' := by
  rw [← List.perm_ext_iff_of_nodup h h']
  constructor
  · intro heq
    exact (inOrder_perm tags).symm.trans (heq ▸ inOrder_perm tags')
  · intro hsame
    exact eq_inOrder ((inOrder_perm tags).trans hsame) (pairwise_inOrder tags)

end Key

theorem Data.ofKey_eq_text_iff {k : Key} {s : String} : Data.ofKey k = .text s ↔ k = .text s := by
  cases k <;> simp [Data.ofKey]

/-! ## Writing -/

namespace Config

variable {pairs : Pairs} {c c' : Config} {tags tags' : List String}

/-- Whether the tags without a body are texts. -/
def HasTextTags (c : Config) : Prop :=
  ∀ k ∈ c.voidElements, ∃ s, k = .text s

/-- The settings of a configuration as data, with other tags without a body. -/
def settingsData (c : Config) (items : List Data) : Data :=
  .map [
    (.text "doctype", match c.doctype with
      | some s => .text s
      | none => .null),
    (.text "recursion_limit", .int c.limit),
    (.text "void_elements", .list items),
    (.text "autoescape", .truth c.autoescape)]

theorem toData_eq_ok_iff {d : Data} :
    c.toData = .ok d ↔ ∃ ks, Key.sort? c.voidElements = .ok ks ∧
      d = c.settingsData (ks.map Data.ofKey) := by
  rw [toData, sortKeys]
  cases Key.sort? c.voidElements with
  | error clash => simp [Except.mapError, bind, Except.bind]
  | ok ks =>
    simp only [Except.ok.injEq, exists_eq_left']
    exact ⟨fun h => (Except.ok.inj h).symm, fun h => h ▸ rfl⟩

/-- Only tags that cannot be put in order are in the way of writing. -/
theorem toData_eq_error_iff {e : ConfigError} :
    c.toData = .error e ↔ ∃ k l, Key.sort? c.voidElements = .error (k, l) ∧
      e = .unordered k l := by
  rw [toData, sortKeys]
  cases Key.sort? c.voidElements with
  | error clash => simp [Except.mapError, bind, Except.bind, Prod.ext_iff, eq_comm]
  | ok ks => simp [Except.mapError, bind, Except.bind, pure, Except.pure]

/-- Texts can be put in order, so they are written. -/
theorem toData_of_texts (h : c.voidElements = tags.map .text) :
    c.toData = .ok (c.settingsData ((Key.inOrder tags).map .text)) := by
  refine toData_eq_ok_iff.2 ⟨_, h ▸ Key.sort?_map_text tags, ?_⟩
  rw [List.map_map]
  rfl

/-- What is written shows every setting. -/
theorem settingsData_eq_iff {items items' : List Data} :
    c.settingsData items = c'.settingsData items' ↔
      c.doctype = c'.doctype ∧ c.limit = c'.limit ∧ c.autoescape = c'.autoescape ∧
        items = items' := by
  have hdoctype : (match c.doctype with | some s => Data.text s | none => .null) =
      (match c'.doctype with | some s => Data.text s | none => .null) ↔
        c.doctype = c'.doctype := by
    cases c.doctype <;> cases c'.doctype <;> simp
  simp only [settingsData, Data.map.injEq, List.cons.injEq, Prod.mk.injEq, hdoctype, true_and,
    and_true, Data.int.injEq, Int.ofNat_inj, Data.list.injEq, Data.truth.injEq]
  rw [and_comm (a := items = items')]

/-- Written tags are texts exactly when the tags are. -/
theorem isTags_list_iff {ks : List Key} :
    IsTags (.list (ks.map Data.ofKey)) ↔ ∀ k ∈ ks, ∃ s, k = .text s := by
  rw [← isTagList_iff, isTagList_list_iff]
  constructor
  · rintro ⟨tags, htags⟩ k hk
    obtain ⟨s, -, hs⟩ := List.mem_map.1 (htags ▸ List.mem_map_of_mem hk)
    exact ⟨s, Data.ofKey_eq_text_iff.1 hs.symm⟩
  · intro htexts
    obtain ⟨tags, rfl⟩ := Key.exists_map_text_iff.2 htexts
    exact ⟨tags, by rw [List.map_map]; rfl⟩

/-! ## Reading again -/

/-- Settings with texts are read as they were written. -/
theorem ofData_settingsData (c : Config) (tags : List String) :
    ofData (c.settingsData (tags.map .text)) =
      .ok { c with voidElements := Key.distinct (tags.map .text) } := by
  refine ofData_eq_ok_iff.2 ⟨rfl, ?_, .int c.limit_pos, .list tags, .truth c.autoescape⟩
  show SaysDoctype (some (match c.doctype with | some s => Data.text s | none => .null)) c.doctype
  cases c.doctype with
  | none => exact .null
  | some s => exact .text s

/-- Settings with anything else among the tags are refused. -/
theorem ofData_settingsData_of_not {items : List Data} (h : ¬ IsTags (.list items)) :
    ofData (c.settingsData items) = .error .noTagList :=
  ofData_eq_error_iff.2 (.noTagList rfl rfl h)

theorem SaysTags.forall_text {o : Option Data} {ks : List Key} (h : SaysTags o ks) :
    ∀ k ∈ ks, ∃ s, k = .text s := by
  rw [← Key.exists_map_text_iff]
  cases h with
  | absent => exact ⟨_, rfl⟩
  | list tags | tuple tags => exact ⟨_, Key.distinct_map_text tags⟩

/-- What is read from a map has texts as tags. -/
theorem hasTextTags_of_ofData {d : Data} (h : ofData d = .ok c) : c.HasTextTags := by
  cases d with
  | map pairs => exact (ofData_eq_ok_iff.1 h).voidElements.forall_text
  | _ => cases h

/-! ## Which configurations agree -/

theorem sameAs_iff (h : c.voidElements = tags.map .text) (h' : c'.voidElements = tags'.map .text) :
    c.sameAs c' = true ↔ c.doctype = c'.doctype ∧ c.limit = c'.limit ∧
      c.autoescape = c'.autoescape ∧ ∀ s, s ∈ tags ↔ s ∈ tags' := by
  have hsub (ss ss' : List String) :
      (ss.map Key.text).all (·.isIn (ss'.map .text)) = true ↔ ∀ s ∈ ss, s ∈ ss' := by
    simp [Key.isIn_text_iff]
  rw [sameAs, h, h']
  simp only [Bool.and_eq_true, beq_iff_eq, hsub]
  constructor
  · rintro ⟨⟨⟨⟨hdoctype, hlimit⟩, hautoescape⟩, hle⟩, hge⟩
    exact ⟨hdoctype, hlimit, hautoescape, fun s => ⟨hle s, hge s⟩⟩
  · rintro ⟨hdoctype, hlimit, hautoescape, hmem⟩
    exact ⟨⟨⟨⟨hdoctype, hlimit⟩, hautoescape⟩, fun s => (hmem s).1⟩, fun s => (hmem s).2⟩

/-- What agrees with a configuration with texts as tags has texts as tags. -/
theorem HasTextTags.of_sameAs (h : c.HasTextTags) (hsame : c.sameAs c' = true) :
    c'.HasTextTags := by
  obtain ⟨tags, htags⟩ := Key.exists_map_text_iff.2 h
  simp only [sameAs, htags, Bool.and_eq_true, List.all_eq_true] at hsame
  intro k hk
  obtain ⟨s, -, hs⟩ := Key.isIn_map_text_iff.1 (hsame.2 k hk)
  exact ⟨s, hs⟩

/-- With texts as tags, a configuration is read as it was written. -/
theorem ofData_toData_of_texts (h : c.HasTextTags) :
    ∃ d c', c.toData = .ok d ∧ ofData d = .ok c' ∧ c'.sameAs c = true := by
  obtain ⟨tags, htags⟩ := Key.exists_map_text_iff.2 h
  refine ⟨_, _, toData_of_texts htags, ofData_settingsData c _, ?_⟩
  have hdistinct := Key.distinct_map_text (Key.inOrder tags)
  refine (sameAs_iff hdistinct htags).2 ⟨rfl, rfl, rfl, fun s => ?_⟩
  rw [List.mem_eraseDups, (Key.inOrder_perm tags).mem_iff]

/-- With anything else among the tags, what is written is refused. -/
theorem ofData_toData_of_not {d : Data} (h : ¬ c.HasTextTags) (hd : c.toData = .ok d) :
    ofData d = .error .noTagList := by
  obtain ⟨ks, hks, rfl⟩ := toData_eq_ok_iff.1 hd
  refine ofData_settingsData_of_not (mt isTags_list_iff.1 fun htexts => h fun k hk => ?_)
  exact htexts k ((Key.perm_of_sort? hks).mem_iff.2 hk)

/-- A configuration survives being written exactly when its tags are texts. -/
theorem survives_iff : c.survives = .ok true ↔ c.HasTextTags := by
  constructor
  · intro h
    obtain ⟨d, hd, hread⟩ := Data.bind_eq_ok_iff.1 h
    obtain ⟨c', hc', hsame⟩ := Data.bind_eq_ok_iff.1 hread
    exact (hasTextTags_of_ofData hc').of_sameAs (Except.ok.inj hsame)
  · intro h
    obtain ⟨d, c', hd, hc', hsame⟩ := ofData_toData_of_texts h
    refine Data.bind_eq_ok_iff.2 ⟨d, hd, Data.bind_eq_ok_iff.2 ⟨c', hc', ?_⟩⟩
    rw [hsame]
    rfl

/-- What is written like a configuration with texts as tags has texts as tags. -/
theorem HasTextTags.of_toData (h : c.HasTextTags) (hsame : c.toData = c'.toData) :
    c'.HasTextTags := by
  by_contra hnot
  obtain ⟨d, e, hd, he, -⟩ := ofData_toData_of_texts h
  rw [ofData_toData_of_not hnot (hsame ▸ hd)] at he
  cases he

/-- Configurations with the same settings and the same set of tags are written alike. -/
theorem toData_eq_iff (h : c.voidElements = tags.map .text)
    (h' : c'.voidElements = tags'.map .text) (hnodup : tags.Nodup) (hnodup' : tags'.Nodup) :
    c.toData = c'.toData ↔ c.doctype = c'.doctype ∧ c.limit = c'.limit ∧
      c.autoescape = c'.autoescape ∧ ∀ s, s ∈ tags ↔ s ∈ tags' := by
  have htext : Function.Injective Data.text := fun _ _ => Data.text.inj
  rw [toData_of_texts h, toData_of_texts h', Except.ok.injEq, settingsData_eq_iff,
    (List.map_injective_iff.2 htext).eq_iff, Key.inOrder_eq_iff hnodup hnodup']

/-! ## Named arguments -/

/-- Whether data lists texts, and which. -/
def ListsTexts (d : Data) (tags : List String) : Prop :=
  readItems d = .ok (tags.map .text)

theorem readVoidElements_of_ofArguments (h : ofArguments pairs = .ok c) :
    readVoidElements (Data.get? pairs "void_elements") = .ok c.voidElements := by
  rw [ofArguments] at h
  split at h
  · cases h
  · split at h
    · cases h
    · exact (ofSettings_eq_ok_iff.1 h).2.2.2

/-- Texts that are listed are the tags, each of them once. -/
theorem ListsTexts.voidElements_eq {d : Data} (hd : ListsTexts d tags)
    (h : readVoidElements (some d) = .ok c.voidElements) :
    c.voidElements = tags.eraseDups.map .text := by
  rw [readVoidElements, hd, Except.map, Except.ok.injEq] at h
  rw [← h, Key.distinct_map_text]

/-- The tags are texts when nothing else was listed. -/
theorem hasTextTags_iff (h : ofArguments pairs = .ok c) :
    c.HasTextTags ↔ ∀ d ∈ Data.get? pairs "void_elements", ∃ tags, ListsTexts d tags := by
  have hread := readVoidElements_of_ofArguments h
  cases hgiven : Data.get? pairs "void_elements" with
  | none =>
    rw [hgiven] at hread
    have htexts := Key.exists_map_text_iff.1 ⟨_, (Except.ok.inj hread).symm⟩
    simpa [HasTextTags] using htexts
  | some d =>
    rw [hgiven, readVoidElements] at hread
    obtain ⟨ks, hks, hdistinct⟩ :
        ∃ ks, readItems d = .ok ks ∧ Key.distinct ks = c.voidElements := by
      cases hitems : readItems d with
      | error e =>
        rw [hitems] at hread
        cases hread
      | ok ks =>
        rw [hitems] at hread
        exact ⟨ks, rfl, Except.ok.inj hread⟩
    rw [HasTextTags, ← hdistinct, Key.forall_distinct_iff, ← Key.exists_map_text_iff]
    simp [ListsTexts, hks]

/-- No tag is there twice. -/
theorem nodup_of_ofArguments (h : ofArguments pairs = .ok c)
    (htags : c.voidElements = tags.map .text) : tags.Nodup := by
  have htext : Function.Injective Key.text := fun _ _ => Key.text.inj
  have hread := readVoidElements_of_ofArguments h
  have hlisted := (hasTextTags_iff h).1 (Key.exists_map_text_iff.1 ⟨tags, htags⟩)
  cases hgiven : Data.get? pairs "void_elements" with
  | none =>
    rw [hgiven, htags] at hread
    rw [← List.map_injective_iff.2 htext (Except.ok.inj hread)]
    decide
  | some d =>
    obtain ⟨given, hd⟩ := hlisted d hgiven
    rw [hgiven] at hread
    rw [List.map_injective_iff.2 htext (htags.symm.trans (hd.voidElements_eq hread))]
    exact Entries.nodup_eraseDups given

/-- **Which configurations survive being written.**  For every configuration from named arguments:

* Its tags without a body are texts exactly when the argument for them, if there is one, lists texts
  only.
* If they are, it is written as data from which a configuration is read that agrees with it.
* If they are not, then either two of the tags have no order and nothing is written, or what is
  written is refused for not being a list of texts.
* If they are, it agrees with another configuration exactly when both are written alike.  When both
  were given lists of texts, this is so exactly when the other settings are the same and both lists
  have the same elements, in whatever order and however often. -/
theorem serialisation_exact (h : ofArguments pairs = .ok c) :
    (c.HasTextTags ↔ ∀ d ∈ Data.get? pairs "void_elements", ∃ tags, ListsTexts d tags) ∧
    (c.HasTextTags →
      ∃ d c', c.toData = .ok d ∧ ofData d = .ok c' ∧ c'.sameAs c = true) ∧
    (¬ c.HasTextTags → (∃ k l, c.toData = .error (.unordered k l)) ∨
      ∃ d, c.toData = .ok d ∧ ofData d = .error .noTagList) ∧
    ∀ pairs' c', ofArguments pairs' = .ok c' → c.HasTextTags →
      (c.sameAs c' = true ↔ c.toData = c'.toData) ∧
      ∀ d ∈ Data.get? pairs "void_elements", ∀ d' ∈ Data.get? pairs' "void_elements",
        ∀ tags tags', ListsTexts d tags → ListsTexts d' tags' →
          (c.sameAs c' = true ↔ c.doctype = c'.doctype ∧ c.limit = c'.limit ∧
            c.autoescape = c'.autoescape ∧ ∀ s, s ∈ tags ↔ s ∈ tags') := by
  refine ⟨hasTextTags_iff h, ofData_toData_of_texts, fun hnot => ?_,
    fun pairs' c' h' htexts => ⟨?_, ?_⟩⟩
  · cases hd : c.toData with
    | error e =>
      obtain ⟨k, l, -, rfl⟩ := toData_eq_error_iff.1 hd
      exact .inl ⟨k, l, rfl⟩
    | ok d => exact .inr ⟨d, rfl, ofData_toData_of_not hnot hd⟩
  · have hequal (htexts' : c'.HasTextTags) : c.sameAs c' = true ↔ c.toData = c'.toData := by
      obtain ⟨tags, htags⟩ := Key.exists_map_text_iff.2 htexts
      obtain ⟨tags', htags'⟩ := Key.exists_map_text_iff.2 htexts'
      rw [sameAs_iff htags htags', toData_eq_iff htags htags' (nodup_of_ofArguments h htags)
        (nodup_of_ofArguments h' htags')]
    -- Either side makes the tags of the other configuration texts, too.
    exact ⟨fun hsame => (hequal (htexts.of_sameAs hsame)).1 hsame,
      fun hsame => (hequal (htexts.of_toData hsame)).2 hsame⟩
  · intro d hd d' hd' tags tags' htags htags'
    have hread := readVoidElements_of_ofArguments h
    have hread' := readVoidElements_of_ofArguments h'
    rw [Option.mem_def.1 hd] at hread
    rw [Option.mem_def.1 hd'] at hread'
    rw [sameAs_iff (htags.voidElements_eq hread) (htags'.voidElements_eq hread')]
    simp only [List.mem_eraseDups]

/-- Two tags in a list, one of them twice, and the same tags the other way round. -/
theorem serialisation_repeated : ∃ c c',
    ofArguments [(.text "void_elements", .list [.text "hr", .text "br", .text "hr"])] = .ok c ∧
    ofArguments [(.text "void_elements", .tuple [.text "br", .text "hr"])] = .ok c' ∧
    c.toData = c'.toData ∧
    ∃ d c'', c.toData = .ok d ∧ ofData d = .ok c'' ∧ c''.sameAs c = true := by
  have hlisted : ListsTexts (.list [.text "hr", .text "br", .text "hr"]) ["hr", "br", "hr"] := rfl
  have hlisted' : ListsTexts (.tuple [.text "br", .text "hr"]) ["br", "hr"] := rfl
  refine ⟨{ standard with voidElements := [.text "hr", .text "br"] },
    { standard with voidElements := [.text "br", .text "hr"] }, rfl, rfl, ?_⟩
  obtain ⟨htexts, hread, -, hequal⟩ := serialisation_exact
    (show ofArguments [(.text "void_elements", .list [.text "hr", .text "br", .text "hr"])] =
      .ok { standard with voidElements := [.text "hr", .text "br"] } from rfl)
  have htext := htexts.2 fun _ hd => ⟨_, Option.some.inj hd ▸ hlisted⟩
  obtain ⟨hwritten, hset⟩ := hequal [(.text "void_elements", .tuple [.text "br", .text "hr"])]
    { standard with voidElements := [.text "br", .text "hr"] } rfl htext
  refine ⟨hwritten.1 ((hset _ rfl _ rfl _ _ hlisted hlisted').2 ⟨rfl, rfl, rfl, fun s => ?_⟩),
    hread htext⟩
  simp only [List.mem_cons, List.not_mem_nil, or_false]
  grind

/-- A number as a tag is accepted, and what is written with it is refused. -/
theorem not_forall_survive : ¬ ∀ (pairs : Pairs) (c : Config), ofArguments pairs = .ok c →
    ∃ d c', c.toData = .ok d ∧ ofData d = .ok c' ∧ c'.sameAs c = true := by
  intro h
  obtain ⟨d, c', hd, hc', -⟩ := h [(.text "void_elements", .list [.int 1])]
    { standard with voidElements := [.int 1] } rfl
  have hnumber : ¬ HasTextTags { standard with voidElements := [.int 1] } := by
    intro htexts
    obtain ⟨s, hs⟩ := htexts (.int 1) (List.mem_singleton_self _)
    cases hs
  rw [ofData_toData_of_not hnumber hd] at hc'
  cases hc'

end Config

end MarkupForms
