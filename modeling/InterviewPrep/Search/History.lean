/-
  What `suggest` answers: the words that start with the prefix stand together in the sorted
  word list, and the two searches find them (`prefixMatches_eq`).

  The engine forgets its history: after any calls it holds what a fresh engine holds that has
  indexed the latest version of each document that is left (`run_forgetsHistory`).
-/
import InterviewPrep.Search.Counts
import Mathlib.Data.Set.Card

namespace InterviewPrep.Search

open Lib Dict Function List

/-! ## The words from a prefix on -/

theorem prefix_iff_between {last : Char} (ps : List Char) {ws : List Char}
    (hws : ∀ c ∈ ws, c < last) : ps <+: ws ↔ ¬ ws < ps ∧ ws < ps ++ [last] := by
  induction ps generalizing ws with
  | nil =>
    rw [nil_append]
    constructor
    · intro _
      refine ⟨not_lt_nil ws, ?_⟩
      cases ws with
      | nil => exact nil_lt_cons _ _
      | cons w => exact cons_lt_cons_iff.mpr (Or.inl (hws w List.mem_cons_self))
    · exact fun _ => nil_prefix
  | cons p ps ih =>
    cases ws with
    | nil =>
      constructor
      · intro h
        cases prefix_nil.mp h
      · intro h
        exact absurd (nil_lt_cons p ps) h.1
    | cons =>
      have ih := ih fun c hc => hws c (List.mem_cons_of_mem _ hc)
      rw [cons_prefix_cons, ih, cons_append, cons_lt_cons_iff,
        cons_lt_cons_iff, not_or, not_and]
      constructor
      · rintro ⟨rfl, hle, hlt⟩
        exact ⟨⟨lt_irrefl p, fun _ => hle⟩, Or.inr ⟨rfl, hlt⟩⟩
      · rintro ⟨⟨hle, hrest⟩, hlt | ⟨rfl, hlt⟩⟩
        · exact absurd hlt hle
        · exact ⟨rfl, hrest rfl, hlt⟩

theorem wordChar_lt_lastChar {c : Char} (h : wordChar c) : c < SearchEngine.lastChar := by
  have hz : c ≤ 'z' := by
    simp only [wordChar, Bool.or_eq_true, Bool.and_eq_true, decide_eq_true_eq] at h
    rcases h with ⟨_, h⟩ | ⟨_, h⟩
    · exact h
    · exact le_trans h (by decide)
  exact lt_of_le_of_lt hz (by decide)

theorem Analyzer.wordChar_words {analyzer : Analyzer} {doc : Document} {word : String}
    (h : word ∈ analyzer.words doc) : ∀ c ∈ word.toList, wordChar c := by
  have htags : ∀ (tags : List String) (i : Nat) (token : Token),
      token ∈ analyzer.analyzeTags i tags → ∀ c ∈ token.surface.toList, wordChar c := by
    intro tags
    induction tags with
    | nil => exact nofun
    | cons _ _ ih =>
      intro i token htoken
      rcases mem_append.mp htoken with htoken | htoken
      · obtain ⟨t, ht, rfl⟩ := List.mem_map.mp htoken
        have hsurface : ∀ c ∈ t.surface.toList, wordChar c := Analyzer.wordChar_surface ht
        exact hsurface
      · exact ih (i + 1) token htoken
  obtain ⟨item, hitem, hword⟩ := mem_flatMap.mp h
  obtain ⟨token, htoken, rfl⟩ := List.mem_map.mp hword
  simp only [fields, List.mem_cons, not_mem_nil, or_false] at hitem
  rcases hitem with rfl | rfl | rfl
  · exact Analyzer.wordChar_surface htoken
  · exact htags doc.tags 0 token htoken
  · exact Analyzer.wordChar_surface htoken

/-! ## Matches -/

namespace SearchEngine

variable {e : SearchEngine}

theorem Consistent.mem_keys (h : e.Consistent) (word : String) : word ∈ e.suggestDf.keys ↔
      ∃ docId doc, e.index.docs.get? docId = some doc ∧ word ∈ e.index.analyzer.words doc := by
  rw [h.counts.mem_keys]
  constructor
  · intro hpos
    by_contra hnone
    apply Nat.ne_of_gt hpos
    apply total_zero
    intro doc hdoc
    obtain ⟨item, hitem, rfl⟩ := List.mem_map.mp hdoc
    exact if_neg fun hword => hnone ⟨item.1, item.2, Dict.mem_items.mp hitem, hword⟩
  · rintro ⟨docId, doc, hdoc, hword⟩
    show 0 < Dict.total _ _
    rw [total_erase hdoc, if_pos hword]
    omega

theorem Consistent.prefixMatches_eq (h : e.Consistent)
    (hsorted : e.suggestSorted = e.suggestDf.keys.insertionSort (· ≤ ·)) (p : String) :
    e.prefixMatches p = e.suggestSorted.filter fun word => p.toList <+: word.toList := by
  have hpairwise : e.suggestSorted.Pairwise (· ≤ ·) := by
    rw [hsorted]
    exact pairwise_insertionSort _ _
  have hbelow : ∀ bound : String,
      e.suggestSorted.Pairwise fun x y => decide (y < bound) = true →
      decide (x < bound) = true := by
    intro bound
    apply hpairwise.imp
    intro x y hxy hy
    simp only [decide_eq_true_eq] at hy ⊢
    exact lt_of_le_of_lt hxy hy
  have himp : ∀ x : String, decide (x < p) = true → decide (x < p.push lastChar) = true := by
    intro x hx
    simp only [decide_eq_true_eq] at hx ⊢
    have hlt : p.toList ++ [] < p.toList ++ [lastChar] := append_left_lt (nil_lt_cons _ _)
    rw [append_nil] at hlt
    apply lt_trans hx
    rwa [String.lt_iff_toList_lt, String.toList_push]
  rw [prefixMatches]
  rw [bisect_slice (hbelow p) (hbelow _) himp]
  apply List.filter_congr
  intro word hword
  have hchars : ∀ c ∈ word.toList, c < lastChar := by
    rw [hsorted, mem_insertionSort, h.mem_keys] at hword
    obtain ⟨_, _, _, hword⟩ := hword
    exact fun c hc => wordChar_lt_lastChar (Analyzer.wordChar_words hword c hc)
  have hiff := prefix_iff_between p.toList hchars
  rw [← String.toList_push, ← String.lt_iff_toList_lt, ← String.lt_iff_toList_lt] at hiff
  rw [Bool.eq_iff_iff, Bool.and_eq_true, Bool.not_eq_true', decide_eq_false_iff_not,
    decide_eq_true_eq, decide_eq_true_eq, hiff]

end SearchEngine

/-! ## The answer -/

section

variable (analyzer : Analyzer) (docs : String → Option Document)

/-- The documents with the word. -/
def docsWith (word : String) : Set String :=
  { docId | ∃ doc, docs docId = some doc ∧ word ∈ analyzer.words doc }

/-- The words that start with `p`, those in more documents first, and then the smaller ones. -/
structure Ranks (p : String) (ranking : List String) : Prop where
  nodup : ranking.Nodup
  mem_iff : ∀ word, word ∈ ranking ↔
    (docsWith analyzer docs word).Nonempty ∧ p.toList <+: word.toList
  ordered : ranking.Pairwise fun v w =>
    (docsWith analyzer docs w).ncard < (docsWith analyzer docs v).ncard ∨
      (docsWith analyzer docs v).ncard = (docsWith analyzer docs w).ncard ∧ v < w

end

theorem docCount_eq_ncard (analyzer : Analyzer) (docs : Dict String Document) (word : String) :
    docCount analyzer docs word = (docsWith analyzer docs.get? word).ncard := by
  let having := docs.items.filter fun item => word ∈ analyzer.words item.2
  have hnodup : (having.map Prod.fst).Nodup := docs.nodup.sublist (filter_sublist.map _)
  have hset : docsWith analyzer docs.get? word = ↑(having.map Prod.fst).toFinset := by
    ext docId
    simp only [docsWith, Set.mem_ofPred_eq, Finset.mem_coe, List.mem_toFinset, List.mem_map]
    constructor
    · rintro ⟨doc, hdoc, hword⟩
      exact ⟨(docId, doc), by simpa [having, Dict.mem_items] using ⟨hdoc, hword⟩, rfl⟩
    · rintro ⟨item, hitem, rfl⟩
      obtain ⟨hitem, hword⟩ := List.mem_filter.mp hitem
      exact ⟨item.2, Dict.mem_items.mp hitem, by simpa using hword⟩
  rw [hset, Set.ncard_coe_finset, toFinset_card_of_nodup hnodup, length_map,
    ← countP_eq_length_filter, docCount, Dict.total, Dict.values, List.map_map]
  induction docs.items with
  | nil => rfl
  | cons _ _ ih =>
    rw [List.map_cons, List.sum_cons, ih, countP_cons, add_comm]
    simp

namespace SearchEngine

variable {e : SearchEngine}

theorem Consistent.nonempty_docsWith (h : e.Consistent) (word : String) :
    word ∈ e.suggestDf.keys ↔
      (docsWith e.index.analyzer e.index.docs.get? word).Nonempty := h.mem_keys word

theorem Consistent.suggestKey_lt (h : e.Consistent) {v w : String}
    (hle : e.suggestKey v ≤ e.suggestKey w) (hne : v ≠ w) :
    (docsWith e.index.analyzer e.index.docs.get? w).ncard <
        (docsWith e.index.analyzer e.index.docs.get? v).ncard ∨
      (docsWith e.index.analyzer e.index.docs.get? v).ncard =
        (docsWith e.index.analyzer e.index.docs.get? w).ncard ∧ v < w := by
  rw [← docCount_eq_ncard, ← docCount_eq_ncard]
  rw [suggestKey, suggestKey, Prod.Lex.toLex_le_toLex, h.counts.count, h.counts.count] at hle
  rcases hle with hlt | ⟨heq, hle⟩
  · left
    show e.docCount w < e.docCount v
    simp only at hlt
    omega
  · right
    constructor
    · show e.docCount v = e.docCount w
      simp only at heq
      omega
    · exact lt_of_le_of_ne hle hne

theorem Consistent.ranks (h : e.Consistent)
    (hsorted : e.suggestSorted = e.suggestDf.keys.insertionSort (· ≤ ·)) (p : String) :
    Ranks e.index.analyzer e.index.docs.get? p
      ((e.prefixMatches p).insertionSort fun a b => e.suggestKey a ≤ e.suggestKey b) := by
  have hperm := perm_insertionSort (fun a b => e.suggestKey a ≤ e.suggestKey b)
    (e.prefixMatches p)
  have hnodup : (e.prefixMatches p).Nodup := by
    rw [h.prefixMatches_eq hsorted, hsorted]
    apply List.Nodup.filter
    exact (perm_insertionSort _ _).nodup_iff.mpr (Dict.keys_nodup _)
  constructor
  · exact hperm.nodup_iff.mpr hnodup
  · intro word
    rw [hperm.mem_iff, h.prefixMatches_eq hsorted, List.mem_filter, hsorted,
      mem_insertionSort, h.nonempty_docsWith, decide_eq_true_eq]
  · have hle := pairwise_insertionSort (fun a b => e.suggestKey a ≤ e.suggestKey b)
      (e.prefixMatches p)
    apply (hle.and (hperm.nodup_iff.mpr hnodup)).imp
    rintro v w ⟨hle, hne⟩
    exact h.suggestKey_lt hle hne

theorem Consistent.suggest (h : e.Consistent) (pref : String) (limit : Int) {p : String}
    (hp : p = e.index.analyzer.strip (e.index.analyzer.lower pref)) :
    (∃ ranking, Ranks e.index.analyzer e.index.docs.get? p ranking ∧
      (e.suggest pref limit).1 = if p = "" then [] else ranking.take limit.toNat) ∧
      (e.suggest pref limit).2.Consistent ∧ (e.suggest pref limit).2.index = e.index := by
  obtain ⟨hconsistent, hindex, hcounter, hsorted⟩ := h.refreshed
  have hranks := hconsistent.ranks (by rw [hsorted, hcounter]) p
  rw [hindex] at hranks
  rw [SearchEngine.suggest]
  simp only [← hp]
  constructor
  · refine ⟨_, hranks, ?_⟩
    split <;> rfl
  · split
    next => exact ⟨h, rfl⟩
    next => exact ⟨hconsistent, hindex⟩

end SearchEngine

/-! ## The documents that are left -/

/-- The latest version of each document, after one more call. -/
def surviving (docs : String → Option Document) : SearchOp → String → Option Document
  | .index doc => Function.update docs doc.docId (some doc)
  | .delete docId => Function.update docs docId none
  | .suggest _ _ => docs

def latest (ops : List SearchOp) : String → Option Document := ops.foldl surviving fun _ => none

/-- Each of the documents once. -/
structure Enumerates (docs : List Document) (m : String → Option Document) : Prop where
  nodup : (docs.map Document.docId).Nodup
  mem_iff : ∀ doc, doc ∈ docs ↔ m doc.docId = some doc

variable {docs : List Document}

theorem latest_map_index (hnodup : (docs.map Document.docId).Nodup)
    (init : String → Option Document) :
    (∀ doc ∈ docs, (docs.map SearchOp.index).foldl surviving init doc.docId = some doc) ∧
      ∀ docId, docId ∉ docs.map Document.docId →
        (docs.map SearchOp.index).foldl surviving init docId = init docId := by
  induction docs generalizing init with
  | nil => exact ⟨nofun, fun _ _ => rfl⟩
  | cons doc _ ih =>
    obtain ⟨hdoc, hnodup⟩ := nodup_cons.mp hnodup
    obtain ⟨hmem, hother⟩ := ih hnodup (surviving init (.index doc))
    constructor
    · intro other h
      rcases List.mem_cons.mp h with rfl | h
      · rw [List.map_cons, foldl_cons, hother _ hdoc]
        exact update_self _ _ _
      · exact hmem other h
    · intro docId h
      rw [List.map_cons, List.mem_cons, not_or] at h
      rw [List.map_cons, foldl_cons, hother _ h.2]
      exact update_of_ne h.1 _ _

theorem Enumerates.latest {m : String → Option Document}
    (h : Enumerates docs m) (hkeyed : ∀ docId doc, m docId = some doc → doc.docId = docId) :
    latest (docs.map SearchOp.index) = m := by
  obtain ⟨hmem, hother⟩ := latest_map_index h.nodup fun _ => none
  funext docId
  by_cases hid : docId ∈ docs.map Document.docId
  · obtain ⟨doc, hdoc, rfl⟩ := List.mem_map.mp hid
    rw [(h.mem_iff doc).mp hdoc]
    exact hmem doc hdoc
  · rw [Search.latest, hother docId hid]
    cases hm : m docId with
    | none => rfl
    | some doc =>
      obtain rfl := hkeyed docId doc hm
      exact absurd (List.mem_map_of_mem ((h.mem_iff doc).mpr hm)) hid

/-! ## Runs -/

namespace SearchEngine

variable {e f : SearchEngine}

theorem Consistent.step (h : e.Consistent) (op : SearchOp) :
    ∃ answer e', e.step op = .ok (answer, e') ∧ e'.Consistent ∧
      e'.index.docs.get? = surviving e.index.docs.get? op ∧
      e'.index.analyzer = e.index.analyzer ∧ e'.index.fieldWeights = e.index.fieldWeights := by
  cases op with
  | index doc =>
    obtain ⟨e', hindex, hconsistent, hdocs, hrest⟩ := h.indexDoc doc
    refine ⟨.nothing, e', by rw [SearchEngine.step, hindex], hconsistent, ?_, hrest⟩
    funext docId
    rw [hdocs, get?_set, get?_erase]
    rw [surviving, update_apply]
    split <;> rfl
  | delete docId =>
    obtain ⟨removed, e', hdelete, hconsistent, hdocs, hrest⟩ := h.delete docId
    refine ⟨.removed removed, e', by rw [SearchEngine.step, hdelete], hconsistent, ?_, hrest⟩
    funext docId'
    rw [hdocs, get?_erase]
    exact (update_apply _ _ _ _).symm
  | suggest pref limit =>
    obtain ⟨_, hconsistent, hindex⟩ := h.suggest pref limit rfl
    refine ⟨.words (e.suggest pref limit).1, (e.suggest pref limit).2, rfl, hconsistent, ?_, ?_,
      ?_⟩
    · rw [hindex]
      rfl
    · rw [hindex]
    · rw [hindex]

theorem Consistent.run (h : e.Consistent) (ops : List SearchOp) :
    ∃ answers e', runSteps SearchEngine.step e ops = .ok (answers, e') ∧ e'.Consistent ∧
      e'.index.docs.get? = ops.foldl surviving e.index.docs.get? ∧
      e'.index.analyzer = e.index.analyzer ∧ e'.index.fieldWeights = e.index.fieldWeights := by
  induction ops generalizing e with
  | nil => exact ⟨[], e, rfl, h, rfl, rfl, rfl⟩
  | cons op _ ih =>
    obtain ⟨answer, e1, hstep, h1, hdocs1, hanalyzer1, hweights1⟩ := h.step op
    obtain ⟨answers, e2, hrun, h2, hdocs2, hanalyzer2, hweights2⟩ := ih h1
    refine ⟨answer :: answers, e2, runSteps_cons_ok hstep hrun, h2, ?_, ?_, ?_⟩
    · rw [hdocs2, hdocs1, foldl_cons]
    · rw [hanalyzer2, hanalyzer1]
    · rw [hweights2, hweights1]

theorem new_run (analyzer : Analyzer) (weights : Field → ℚ) (ops : List SearchOp) :
    ∃ answers e, runSteps SearchEngine.step (new analyzer weights) ops = .ok (answers, e) ∧
      e.Consistent ∧ e.index.docs.get? = latest ops ∧ e.index.analyzer = analyzer ∧
      e.index.fieldWeights = weights :=
  (new_consistent analyzer weights).run ops

/-! ## What two engines hold -/

/-- The two hold the same, up to the order in which it was written. -/
structure SameContents (e f : SearchEngine) : Prop where
  vocabulary : ∀ term, (e.index.postings.get? term).isSome = (f.index.postings.get? term).isSome
  posting : ∀ term docId,
    e.index.postings.posting term docId = f.index.postings.posting term docId
  forward : ∀ docId, e.index.forward.get? docId = f.index.forward.get? docId
  surface : ∀ docId, e.index.surface.get? docId = f.index.surface.get? docId
  docs : ∀ docId, e.index.docs.get? docId = f.index.docs.get? docId
  docLen : ∀ docId, e.index.docLen.get? docId = f.index.docLen.get? docId
  totalLen : e.index.totalLen = f.index.totalLen
  suggestDf : ∀ word, e.suggestDf.get? word = f.suggestDf.get? word

theorem Consistent.mem_vocabulary (h : e.Consistent) (term : String) :
    (e.index.postings.get? term).isSome ↔
      ∃ docId, e.index.postings.posting term docId ≠ none := by
  unfold Postings.posting
  cases hplist : e.index.postings.get? term with
  | none => simp
  | some plist =>
    obtain ⟨item, hitem⟩ := exists_mem_of_ne_nil _ (h.contents.live term plist hplist)
    simp only [Option.isSome_some, Option.bind_some, true_iff]
    exact ⟨item.1, by simp [mem_items_iff.mp hitem]⟩

theorem Consistent.sameContents (he : e.Consistent) (hf : f.Consistent)
    (hdocs : e.index.docs.get? = f.index.docs.get?)
    (hanalyzer : e.index.analyzer = f.index.analyzer)
    (hweights : e.index.fieldWeights = f.index.fieldWeights) : SameContents e f := by
  have hanalysis : e.index.analysis = f.index.analysis := by
    funext doc
    rw [InvertedIndex.analysis, InvertedIndex.analysis, hanalyzer, hweights]
  have hposting : ∀ term docId,
      e.index.postings.posting term docId = f.index.postings.posting term docId := by
    intro term docId
    rw [he.contents.posting, hf.contents.posting, hdocs, hanalysis]
  constructor
  · intro term
    rw [Bool.eq_iff_iff, he.mem_vocabulary, hf.mem_vocabulary]
    simp only [hposting]
  · exact hposting
  · intro docId
    rw [he.contents.forward, hf.contents.forward, hdocs, hanalysis]
  · intro docId
    rw [he.contents.surface, hf.contents.surface, hdocs, hanalysis]
  · exact congrFun hdocs
  · intro docId
    rw [he.contents.docLen, hf.contents.docLen, hdocs, hanalysis]
  · rw [he.contents.totalLen, hf.contents.totalLen, hanalysis]
    exact total_eq_of_get? (congrFun hdocs) _
  · intro word
    have hcount : e.docCount word = f.docCount word := by
      show Search.docCount _ _ _ = Search.docCount _ _ _
      rw [hanalyzer]
      exact total_eq_of_get? (congrFun hdocs) _
    rw [he.counts word, hf.counts word, hcount]

theorem Consistent.enumerates (h : e.Consistent) :
    Enumerates e.index.docs.values e.index.docs.get? := by
  have hids : e.index.docs.values.map Document.docId = e.index.docs.keys := by
    rw [Dict.values, Dict.keys, List.map_map]
    apply map_congr_left
    intro item hitem
    exact h.contents.keyed item.1 item.2 (mem_items_iff.mp hitem)
  constructor
  · rw [hids]
    exact Dict.keys_nodup _
  intro doc
  rw [Dict.values, List.mem_map]
  constructor
  · rintro ⟨item, hitem, rfl⟩
    have hget := mem_items_iff.mp hitem
    rwa [h.contents.keyed item.1 item.2 hget]
  · intro hdoc
    exact ⟨(doc.docId, doc), Dict.mem_items.mpr hdoc, rfl⟩

/-! ## Forgetting -/

/-- After any calls the engine holds what a fresh one does that has indexed the documents that are
    left; every term that it knows is in one of them; and `suggest` answers with the best words that
    start with the normalised prefix, if that is not empty. -/
theorem run_forgetsHistory (analyzer : Analyzer) (weights : Field → ℚ) (ops : List SearchOp) :
    ∃ answers e, runSteps SearchEngine.step (new analyzer weights) ops = .ok (answers, e) ∧
      (∃ docs, Enumerates docs (latest ops)) ∧
      (∀ docs, Enumerates docs (latest ops) → ∃ answers' f,
        runSteps SearchEngine.step (new analyzer weights) (docs.map .index) = .ok (answers', f) ∧
          SameContents e f) ∧
      (∀ term ∈ e.index.postings.keys, ∃ docId doc, latest ops docId = some doc ∧
        e.index.postings.posting term docId ≠ none) ∧
      ∀ pref limit, ∃ ranking,
        Ranks analyzer (latest ops) (analyzer.strip (analyzer.lower pref)) ranking ∧
          (e.suggest pref limit).1 =
            if analyzer.strip (analyzer.lower pref) = "" then [] else ranking.take limit.toNat := by
  obtain ⟨answers, e, hrun, he, hdocs, hanalyzer, hweights⟩ := new_run analyzer weights ops
  have henumerates := he.enumerates
  rw [hdocs] at henumerates
  refine ⟨answers, e, hrun, ⟨_, henumerates⟩, ?_, ?_, ?_⟩
  · intro docs h
    obtain ⟨answers', f, hrun', hf, hdocs', hanalyzer', hweights'⟩ :=
      new_run analyzer weights (docs.map .index)
    refine ⟨answers', f, hrun', he.sameContents hf ?_ ?_ ?_⟩
    · rw [hdocs, hdocs', h.latest]
      rw [← hdocs]
      exact he.contents.keyed
    · rw [hanalyzer, hanalyzer']
    · rw [hweights, hweights']
  · intro term hterm
    rw [Dict.mem_keys, ← Option.isSome_iff_exists, he.mem_vocabulary] at hterm
    obtain ⟨docId, hposting⟩ := hterm
    have hdoc := he.contents.posting term docId
    cases hget : e.index.docs.get? docId with
    | none =>
      rw [hget] at hdoc
      exact absurd hdoc hposting
    | some doc => exact ⟨docId, doc, by rw [← hdocs, hget], hposting⟩
  · intro pref limit
    obtain ⟨hsuggest, _⟩ := he.suggest pref limit rfl
    rwa [hdocs, hanalyzer] at hsuggest

/-- The analyzer of a text that is in lower case and has no blanks around it. -/
def plainAnalyzer : Analyzer := ⟨["the"], lightStem, id, id⟩

/-- The empty prefix is answered with nothing, though every word starts with it. -/
theorem suggest_emptyPrefix :
    ∃ answers e, runSteps SearchEngine.step (new plainAnalyzer fun _ => 1)
        [.index ⟨"d", "python", "", []⟩] = .ok (answers, e) ∧
      ¬ ∃ ranking, Ranks plainAnalyzer (latest [.index ⟨"d", "python", "", []⟩]) "" ranking ∧
        (e.suggest "" 5).1 = ranking.take 5 := by
  obtain ⟨answers, e, hrun, he, hdocs, hanalyzer, _⟩ :=
    new_run plainAnalyzer (fun _ => 1) [.index ⟨"d", "python", "", []⟩]
  refine ⟨answers, e, hrun, ?_⟩
  rintro ⟨ranking, hranks, hsuggest⟩
  have hempty : (e.suggest "" 5).1 = [] := by
    rw [suggest, hanalyzer]
    rfl
  have hword : "python" ∈ ranking := by
    rw [hranks.mem_iff]
    exact ⟨⟨"d", ⟨"d", "python", "", []⟩, by rfl, by decide +kernel⟩, nil_prefix⟩
  rw [hempty] at hsuggest
  have hranking : ranking = [] := by
    cases ranking with
    | nil => rfl
    | cons => cases hsuggest
  rw [hranking] at hword
  cases hword

end SearchEngine

end InterviewPrep.Search
