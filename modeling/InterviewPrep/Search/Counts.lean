/-
  What the index holds is determined by its documents (`Contents`): each of them contributes
  what it would contribute to an empty index (`analysis`), and nothing else is there.
  Writing and deleting a document keep it so.

  The autocomplete counts.  `Counts c n` says that the counter has the words with a positive
  number, with that number; the counts of an engine are those of its documents
  (`Consistent`), and every call leaves it so.
-/
import InterviewPrep.Lib.Totals
import InterviewPrep.Search.Engine

namespace InterviewPrep.Search

open Lib Dict List

/-! ## Postings -/

namespace Postings

def posting (ps : Postings) (term docId : String) : Option Posting :=
  (ps.get? term).bind fun plist => plist.get? docId

/-- Every term has a document. -/
def Live (ps : Postings) : Prop := ∀ term plist, ps.get? term = some plist → plist.items ≠ []

theorem posting_touch (ps : Postings) (term docId : String) (f : Posting → Posting)
    (term' docId' : String) :
    (ps.touch term docId f).posting term' docId' =
      if term' = term ∧ docId' = docId then
        some (f ((ps.posting term docId).getD ⟨Dict.empty⟩))
      else ps.posting term' docId' := by
  unfold touch posting
  by_cases hterm : term' = term
  · subst hterm
    rw [get?_set_self, Option.bind_some, get?_set]
    cases ps.get? term' with
    | none | some => by_cases hid : docId' = docId <;> simp [hid]
  · rw [get?_set_of_ne _ _ hterm, if_neg (fun h => hterm h.1)]

variable {ps : Postings}

theorem Live.touch (h : ps.Live) (term docId : String) (f : Posting → Posting) :
    (ps.touch term docId f).Live := by
  intro term' plist hplist
  rcases get?_set_some hplist with ⟨rfl, rfl⟩ | ⟨_, hplist⟩
  · apply ne_nil_of_mem
    apply Dict.mem_items.mpr
    exact get?_set_self _ _ _
  · exact h term' plist hplist

theorem remove_spec {docId term : String} (h : ps.posting term docId ≠ none) :
    ∃ ps', Postings.remove docId ps term = some ps' ∧
      (∀ term' docId', ps'.posting term' docId' =
        if term' = term ∧ docId' = docId then none else ps.posting term' docId') ∧
      (ps.Live → ps'.Live) := by
  cases hplist : ps.get? term with
  | none => simp [posting, hplist] at h
  | some plist =>
  cases hposting : plist.get? docId with
  | none => simp [posting, hplist, hposting] at h
  | some =>
  unfold remove
  simp only [hplist, Option.getD_some, hposting]
  by_cases hempty : (plist.erase docId).items = []
  · refine ⟨ps.erase term, by rw [if_pos hempty], ?_, ?_⟩
    · intro term' docId'
      unfold posting
      by_cases hterm : term' = term
      · subst hterm
        rw [get?_erase_self, hplist]
        by_cases hid : docId' = docId
        · simp [hid]
        · have hnone : plist.get? docId' = none := by
            rw [← get?_erase_of_ne plist hid, get?_eq_none, Dict.keys, hempty]
            exact not_mem_nil
          simp [hid, hnone]
      · rw [get?_erase_of_ne _ hterm, if_neg (fun h => hterm h.1)]
    · intro hlive term' plist' hplist'
      exact hlive term' plist' (get?_erase_some hplist').2
  refine ⟨ps.set term (plist.erase docId), by rw [if_neg hempty], ?_, ?_⟩
  · intro term' docId'
    unfold posting
    by_cases hterm : term' = term
    · subst hterm
      rw [get?_set_self, hplist, Option.bind_some, Option.bind_some,
        get?_erase]
      simp
    · rw [get?_set_of_ne _ _ hterm, if_neg (fun h => hterm h.1)]
  · intro hlive term' plist' hplist'
    rcases get?_set_some hplist' with ⟨rfl, rfl⟩ | ⟨_, hplist'⟩
    · exact hempty
    · exact hlive term' plist' hplist'

theorem removeAll_spec {docId : String} (terms : List String) (hnodup : terms.Nodup)
    (h : ∀ term ∈ terms, ps.posting term docId ≠ none) :
    ∃ ps', terms.foldlM (Postings.remove docId) ps = some ps' ∧
      (∀ term docId', ps'.posting term docId' =
        if docId' = docId ∧ term ∈ terms then none else ps.posting term docId') ∧
      (ps.Live → ps'.Live) := by
  induction terms generalizing ps with
  | nil => exact ⟨ps, rfl, fun _ _ => by simp, id⟩
  | cons term terms ih =>
    obtain ⟨hterm, hnodup⟩ := nodup_cons.mp hnodup
    obtain ⟨ps1, hremove, hposting, hlive⟩ := remove_spec (h term mem_cons_self)
    have hrest : ∀ other ∈ terms, ps1.posting other docId ≠ none := by
      intro other hother
      have hne : other ≠ term := fun heq => hterm (heq ▸ hother)
      rw [hposting, if_neg (fun h => hne h.1)]
      exact h other (mem_cons_of_mem _ hother)
    obtain ⟨ps2, hremove2, hposting2, hlive2⟩ := ih hnodup hrest
    refine ⟨ps2, ?_, ?_, hlive2 ∘ hlive⟩
    · rw [foldlM_cons, hremove]
      exact hremove2
    intro term' docId'
    rw [hposting2, hposting]
    by_cases hid : docId' = docId
    · by_cases hmem : term' ∈ terms
      · simp [hid, hmem]
      · by_cases heq : term' = term <;> simp [hid, hmem, heq]
    · simp [hid]

end Postings

/-! ## A document -/

namespace Indexing

variable {docId : String} {weights : Field → ℚ} {acc : Indexing}

theorem fold_keeps (P : Indexing → Prop)
    (htoken : ∀ acc name token, P acc → P (acc.addToken docId name token))
    (hlength : ∀ acc length, P acc → P { acc with length := length })
    (fields : List (Field × List Token)) (h : P acc) :
    P (fields.foldl (addField weights docId) acc) := by
  have htokens : ∀ (name : Field) (tokens : List Token) (acc : Indexing), P acc →
      P (tokens.foldl (addToken docId name) acc) := by
    intro name tokens
    induction tokens with
    | nil => exact fun _ h => h
    | cons token _ ih => exact fun acc h => ih _ (htoken acc name token h)
  induction fields generalizing acc with
  | nil => exact h
  | cons item _ ih => exact ih (htokens item.1 item.2 _ (hlength acc _ h))

/-- The two have taken in the same document, into different indexes. -/
structure Agrees (docId : String) (acc ref : Indexing) : Prop where
  posting : ∀ term, acc.postings.posting term docId = ref.postings.posting term docId
  terms : acc.terms = ref.terms
  surface : acc.surface = ref.surface
  length : acc.length = ref.length

theorem Agrees.addToken {ref : Indexing} (h : Agrees docId acc ref) (name : Field) (token : Token) :
    Agrees docId (acc.addToken docId name token) (ref.addToken docId name token) := by
  refine ⟨?_, ?_, ?_, h.length⟩
  · intro term
    show (Postings.touch _ _ _ _).posting term docId = (Postings.touch _ _ _ _).posting term docId
    rw [Postings.posting_touch, Postings.posting_touch, h.posting, h.posting]
  · exact congrArg (List.insert token.term) h.terms
  · exact congrArg (List.insert token.surface) h.surface

theorem Agrees.fold {ref : Indexing} (h : Agrees docId acc ref) (fields : List (Field × List Token))
    : Agrees docId (fields.foldl (addField weights docId) acc)
      (fields.foldl (addField weights docId) ref) := by
  have htokens : ∀ (name : Field) (tokens : List Token) (acc ref : Indexing), Agrees docId acc ref →
      Agrees docId (tokens.foldl (Indexing.addToken docId name) acc)
        (tokens.foldl (Indexing.addToken docId name) ref) := by
    intro name tokens
    induction tokens with
    | nil => exact fun _ _ h => h
    | cons token _ ih => exact fun acc ref h => ih _ _ (h.addToken name token)
  induction fields generalizing acc ref with
  | nil => exact h
  | cons _ _ ih =>
    apply ih
    apply htokens
    exact ⟨h.posting, h.terms, h.surface, by show _ + _ = _ + _; rw [h.length]⟩

/-- The terms that have been collected are those of the postings, each once. -/
structure Collected (docId : String) (acc : Indexing) : Prop where
  nodup : acc.terms.Nodup
  mem_iff : ∀ term, term ∈ acc.terms ↔ acc.postings.posting term docId ≠ none

theorem Collected.addToken (h : Collected docId acc) (name : Field) (token : Token) :
    Collected docId (acc.addToken docId name token) := by
  constructor
  · exact h.nodup.insert
  · intro term
    show term ∈ List.insert token.term acc.terms ↔
      (Postings.touch _ _ _ _).posting term docId ≠ none
    rw [Postings.posting_touch, mem_insert_iff, h.mem_iff]
    by_cases hterm : term = token.term
    · simp [hterm]
    · simp [hterm]

end Indexing

/-- What a document contributes to an empty index. -/
def analysis (analyzer : Analyzer) (weights : Field → ℚ) (doc : Document) : Indexing :=
  (analyzer.fields doc).foldl (Indexing.addField weights doc.docId) ⟨Dict.empty, [], [], 0⟩

theorem analysis_collected (analyzer : Analyzer) (weights : Field → ℚ) (doc : Document) :
    (analysis analyzer weights doc).Collected doc.docId := by
  apply Indexing.fold_keeps
  · exact fun acc name token h => h.addToken name token
  · exact fun acc length h => ⟨h.nodup, h.mem_iff⟩
  · exact ⟨nodup_nil, fun term => by simp [Postings.posting]⟩

theorem analysis_surface_nodup (analyzer : Analyzer) (weights : Field → ℚ) (doc : Document) :
    (analysis analyzer weights doc).surface.Nodup := by
  apply Indexing.fold_keeps fun acc => acc.surface.Nodup
  · exact fun acc name token h => h.insert
  · exact fun acc length h => h
  · exact nodup_nil

/-- The words of a document, of all its fields. -/
def Analyzer.words (analyzer : Analyzer) (doc : Document) : List String :=
  (analyzer.fields doc).flatMap fun item => item.2.map Token.surface

theorem mem_analysis_surface {analyzer : Analyzer} {weights : Field → ℚ} {doc : Document}
    {word : String} :
    word ∈ (analysis analyzer weights doc).surface ↔ word ∈ analyzer.words doc := by
  have htokens : ∀ (name : Field) (tokens : List Token) (acc : Indexing),
      word ∈ (tokens.foldl (Indexing.addToken doc.docId name) acc).surface ↔
        word ∈ acc.surface ∨ word ∈ tokens.map Token.surface := by
    intro name tokens
    induction tokens with
    | nil => simp
    | cons token _ ih =>
      intro acc
      rw [List.foldl_cons, ih, List.map_cons, List.mem_cons]
      show word ∈ List.insert token.surface acc.surface ∨ _ ↔ _
      rw [List.mem_insert_iff, or_comm (b := word ∈ acc.surface), or_assoc]
  have hfields : ∀ (fields : List (Field × List Token)) (acc : Indexing),
      word ∈ (fields.foldl (Indexing.addField weights doc.docId) acc).surface ↔
        word ∈ acc.surface ∨ word ∈ fields.flatMap fun item => item.2.map Token.surface := by
    intro fields
    induction fields with
    | nil => simp
    | cons item _ ih =>
      intro acc
      rw [List.foldl_cons, ih, List.flatMap_cons, List.mem_append, ← or_assoc]
      apply or_congr_left
      exact htokens item.1 item.2 _
  rw [analysis, hfields, Analyzer.words]
  simp

/-! ## The index -/

namespace InvertedIndex

/-- What the document contributes. -/
abbrev analysis (idx : InvertedIndex) (doc : Document) : Indexing :=
  Search.analysis idx.analyzer idx.fieldWeights doc

/-- The index holds what its documents contribute, and nothing else. -/
structure Contents (idx : InvertedIndex) : Prop where
  keyed : ∀ docId doc, idx.docs.get? docId = some doc → doc.docId = docId
  posting : ∀ term docId, idx.postings.posting term docId =
    (idx.docs.get? docId).bind fun doc => (idx.analysis doc).postings.posting term docId
  live : idx.postings.Live
  forward : ∀ docId, idx.forward.get? docId =
    (idx.docs.get? docId).map fun doc => (idx.analysis doc).terms
  surface : ∀ docId, idx.surface.get? docId =
    (idx.docs.get? docId).map fun doc => (idx.analysis doc).surface
  docLen : ∀ docId, idx.docLen.get? docId =
    (idx.docs.get? docId).map fun doc => (idx.analysis doc).length
  totalLen : idx.totalLen = idx.docs.total fun doc => (idx.analysis doc).length

theorem new_contents (analyzer : Analyzer) (weights : Field → ℚ) :
    (new analyzer weights).Contents where
  keyed _ _ h := by cases h
  posting _ _ := rfl
  live _ _ h := by cases h
  forward _ := rfl
  surface _ := rfl
  docLen _ := rfl
  totalLen := rfl

variable {idx : InvertedIndex}

theorem Contents.insert (h : idx.Contents) (doc : Document)
    (hnew : idx.docs.get? doc.docId = none) : (idx.insert doc).Contents := by
  have hagrees : Indexing.Agrees doc.docId
      ((idx.analyzer.fields doc).foldl (Indexing.addField idx.fieldWeights doc.docId)
        ⟨idx.postings, [], [], 0⟩) (idx.analysis doc) := by
    apply Indexing.Agrees.fold
    refine ⟨?_, rfl, rfl, rfl⟩
    intro term
    rw [h.posting, hnew]
    rfl
  have hothers : ∀ term docId, docId ≠ doc.docId →
      (idx.insert doc).postings.posting term docId = idx.postings.posting term docId := by
    intro term docId hne
    apply Indexing.fold_keeps fun acc =>
      acc.postings.posting term docId = idx.postings.posting term docId
    · intro acc name token hacc
      show (Postings.touch _ _ _ _).posting term docId = _
      rw [Postings.posting_touch, if_neg (fun h => hne h.2), hacc]
    · exact fun acc length hacc => hacc
    · rfl
  have hlive : (idx.insert doc).postings.Live := by
    apply Indexing.fold_keeps fun acc => acc.postings.Live
    · exact fun acc name token hacc => hacc.touch _ _ _
    · exact fun acc length hacc => hacc
    · exact h.live
  -- the tables that have one entry for each document
  have hset : ∀ {β : Type} {d : Dict String β} {f : Document → β} {b : β},
      (∀ id, d.get? id = (idx.docs.get? id).map f) → b = f doc →
      ∀ id, (d.set doc.docId b).get? id = ((idx.docs.set doc.docId doc).get? id).map f := by
    intro β d f b hd hb id
    rw [get?_set, get?_set]
    split
    · exact congrArg some hb
    · exact hd id
  constructor
  · intro docId doc' hdoc
    rcases get?_set_some hdoc with ⟨rfl, rfl⟩ | ⟨_, hdoc⟩
    · rfl
    · exact h.keyed docId doc' hdoc
  · intro term docId
    show _ = ((idx.docs.set doc.docId doc).get? docId).bind _
    by_cases hid : docId = doc.docId
    · subst hid
      rw [get?_set_self]
      exact hagrees.posting term
    · rw [hothers term docId hid, get?_set_of_ne _ _ hid]
      exact h.posting term docId
  · exact hlive
  · exact hset h.forward hagrees.terms
  · exact hset h.surface hagrees.surface
  · exact hset h.docLen hagrees.length
  · show idx.totalLen + _ = (idx.docs.set doc.docId doc).total _
    rw [hagrees.length, h.totalLen, total_set_of_none hnew, add_comm]
    rfl

theorem Contents.delete (h : idx.Contents) {docId : String} {doc : Document}
    (hdoc : idx.docs.get? docId = some doc) :
    ∃ idx', idx.delete docId = some (true, idx') ∧ idx'.Contents ∧
      idx'.docs = idx.docs.erase docId ∧ idx'.analyzer = idx.analyzer ∧
      idx'.fieldWeights = idx.fieldWeights := by
  have hid := h.keyed docId doc hdoc
  have hcollected := analysis_collected idx.analyzer idx.fieldWeights doc
  have hforward := h.forward docId
  have hsurface := h.surface docId
  have hlen := h.docLen docId
  rw [hdoc, Option.map_some] at hforward hsurface hlen
  have hposting : ∀ term, idx.postings.posting term docId =
      (idx.analysis doc).postings.posting term docId := by
    intro term
    rw [h.posting, hdoc]
    rfl
  have hpresent : ∀ term ∈ (idx.analysis doc).terms, idx.postings.posting term docId ≠ none := by
    intro term hterm
    rw [hposting, ← hid]
    exact (hcollected.mem_iff term).mp hterm
  obtain ⟨ps, hfold, hps, hlive⟩ := Postings.removeAll_spec _ hcollected.nodup hpresent
  refine ⟨{ idx with
      postings := ps
      forward := idx.forward.erase docId
      docs := idx.docs.erase docId
      surface := idx.surface.erase docId
      docLen := idx.docLen.erase docId
      totalLen := idx.totalLen - (idx.analysis doc).length }, ?_, ?_, rfl, rfl, rfl⟩
  · simp only [InvertedIndex.delete, hdoc, hforward, hsurface, hlen, hfold, Option.bind_eq_bind,
      Option.bind_some]
  have herase : ∀ {β : Type} {d : Dict String β} {f : Document → β},
      (∀ id, d.get? id = (idx.docs.get? id).map f) →
      ∀ id, (d.erase docId).get? id = ((idx.docs.erase docId).get? id).map f := by
    intro β d f hd id
    rw [get?_erase, get?_erase]
    split
    · rfl
    · exact hd id
  constructor
  · intro id other hother
    exact h.keyed id other (get?_erase_some hother).2
  · intro term id
    rw [hps, get?_erase]
    by_cases heq : id = docId
    · subst heq
      rw [if_pos rfl]
      split
      next => rfl
      next hnot =>
        have hterm : term ∉ (idx.analysis doc).terms := fun hmem => hnot ⟨rfl, hmem⟩
        rw [hcollected.mem_iff, not_not, hid] at hterm
        rw [hposting, hterm]
        rfl
    · rw [if_neg (fun h => heq h.1), if_neg heq]
      exact h.posting term id
  · exact hlive h.live
  · exact herase h.forward
  · exact herase h.surface
  · exact herase h.docLen
  · show idx.totalLen - _ = (idx.docs.erase docId).total _
    rw [h.totalLen, total_erase hdoc, add_sub_cancel_left]

theorem Contents.upsert (h : idx.Contents) (doc : Document) :
    ∃ idx', idx.upsert doc = some idx' ∧ idx'.Contents ∧
      idx'.docs = (idx.docs.erase doc.docId).set doc.docId doc ∧
      idx'.analyzer = idx.analyzer ∧ idx'.fieldWeights = idx.fieldWeights := by
  cases hdoc : idx.docs.get? doc.docId with
  | none =>
    refine ⟨idx.insert doc, by rw [InvertedIndex.upsert, hdoc], h.insert doc hdoc, ?_, rfl, rfl⟩
    rw [Dict.ext (erase_eq_of_get?_none hdoc)]
    rfl
  | some =>
    obtain ⟨idx', hdelete, hcontents, hdocs, hanalyzer, hweights⟩ := h.delete hdoc
    refine ⟨idx'.insert doc, by rw [InvertedIndex.upsert, hdoc, hdelete]; rfl, ?_, ?_, hanalyzer,
      hweights⟩
    · apply hcontents.insert
      rw [hdocs, get?_erase_self]
    · show idx'.docs.set _ _ = _
      rw [hdocs]

end InvertedIndex

/-! ## Counters -/

namespace Counter

variable {words : List String}

theorem get?_add (c : Counter) (n : Int) (hnodup : words.Nodup)
    (word : String) :
    (c.add n words).get? word = if word ∈ words then some (c.count word + n) else c.get? word := by
  induction words generalizing c with
  | nil => rfl
  | cons w words ih =>
    obtain ⟨hw, hnodup⟩ := nodup_cons.mp hnodup
    show (Counter.add (Dict.set c w (c.count w + n)) n words).get? word = _
    rw [ih _ hnodup]
    by_cases heq : word = w
    · subst heq
      rw [if_neg hw, get?_set_self, if_pos mem_cons_self]
    · simp [count, get?_set_of_ne _ _ heq, heq]

theorem get?_drop (c : Counter) (words : List String) (word : String) :
    (c.drop words).get? word =
      if word ∈ words ∧ c.count word ≤ 0 then none else c.get? word := by
  induction words generalizing c with
  | nil => simp [drop]
  | cons w words ih =>
    show (Counter.drop (if c.count w ≤ 0 then Dict.erase c w else c) words).get? word = _
    rw [ih]
    by_cases hle : c.count w ≤ 0
    · rw [if_pos hle]
      by_cases heq : word = w
      · subst heq
        simp [hle]
      · simp [count, get?_erase_of_ne c heq, heq]
    · rw [if_neg hle]
      by_cases heq : word = w
      · subst heq
        simp [hle]
      · simp [heq]

/-- The words with a positive number are there, with that number. -/
def Counts (c : Counter) (n : String → Nat) : Prop :=
  ∀ word, c.get? word = if n word = 0 then none else some (n word : Int)

variable {c : Counter} {n n' : String → Nat}

theorem Counts.count (h : Counts c n) (word : String) : c.count word = n word := by
  rw [Counter.count, h word]
  split
  next hzero => rw [hzero]; rfl
  next => rfl

theorem Counts.mem_keys (h : Counts c n) (word : String) : word ∈ Dict.keys c ↔ 0 < n word := by
  rw [Dict.mem_keys, h word]
  by_cases hzero : n word = 0
  · simp [hzero]
  · simp [hzero, Nat.pos_of_ne_zero hzero]

theorem Counts.add (h : Counts c n) (hnodup : words.Nodup)
    (hn : ∀ word, n' word = (if word ∈ words then 1 else 0) + n word) :
    Counts (c.add 1 words) n' := by
  intro word
  rw [get?_add c 1 hnodup, hn, h.count]
  by_cases hmem : word ∈ words
  · rw [if_pos hmem, if_pos hmem, if_neg (by omega)]
    congr 1
    omega
  · rw [if_neg hmem, if_neg hmem, Nat.zero_add]
    exact h word

theorem Counts.forget (h : Counts c n) (hnodup : words.Nodup)
    (hn : ∀ word, n word = (if word ∈ words then 1 else 0) + n' word) :
    Counts ((c.add (-1) words).drop words) n' := by
  intro word
  have hword := hn word
  rw [get?_drop]
  have hget := get?_add c (-1) hnodup word
  rw [h.count] at hget
  by_cases hmem : word ∈ words
  · rw [if_pos hmem] at hget hword
    have hcount : (c.add (-1) words).count word = n' word := by
      rw [Counter.count, hget]
      show (n word : Int) + -1 = n' word
      omega
    by_cases hzero : n' word = 0
    · rw [if_pos ⟨hmem, by omega⟩, if_pos hzero]
    · rw [if_neg (by omega), if_neg hzero, hget]
      congr 1
      omega
  · rw [if_neg hmem] at hget hword
    rw [if_neg (fun h => hmem h.1), hget, h word, hword, Nat.zero_add]

end Counter

/-! ## Documents with a word -/

/-- The number of documents with the word. -/
def docCount (analyzer : Analyzer) (docs : Dict String Document) (word : String) : Nat :=
  docs.total fun doc => if word ∈ analyzer.words doc then 1 else 0

namespace SearchEngine

variable {e : SearchEngine}

abbrev docCount (e : SearchEngine) : String → Nat :=
  Search.docCount e.index.analyzer e.index.docs

/-- The index and counts are those of the documents, and so is the word list unless out of date. -/
structure Consistent (e : SearchEngine) : Prop where
  contents : e.index.Contents
  counts : Counter.Counts e.suggestDf e.docCount
  sorted : e.suggestDirty = false →
    e.suggestSorted = e.suggestDf.keys.insertionSort (· ≤ ·)

theorem new_consistent (analyzer : Analyzer) (weights : Field → ℚ) :
    (new analyzer weights).Consistent where
  contents := InvertedIndex.new_contents analyzer weights
  counts _ := rfl
  sorted _ := rfl

theorem Consistent.surfaceWords (h : e.Consistent) {docId : String} {doc : Document}
    (hdoc : e.index.docs.get? docId = some doc) : (e.index.surfaceWords docId).Nodup ∧
      ∀ word, word ∈ e.index.surfaceWords docId ↔ word ∈ e.index.analyzer.words doc := by
  rw [InvertedIndex.surfaceWords, h.contents.surface, hdoc]
  exact ⟨analysis_surface_nodup _ _ _, fun word => mem_analysis_surface⟩

theorem Consistent.forgetSurface_of_none (h : e.Consistent) {docId : String}
    (hdoc : e.index.docs.get? docId = none) : e.forgetSurface docId = e := by
  have hwords : e.index.surfaceWords docId = [] := by
    rw [InvertedIndex.surfaceWords, h.contents.surface, hdoc]
    rfl
  rw [forgetSurface, if_pos hwords]

@[simp] theorem forgetSurface_index (e : SearchEngine) (docId : String) :
    (e.forgetSurface docId).index = e.index := by
  rw [forgetSurface]
  split <;> rfl

@[simp] theorem forgetSurface_suggestDirty (e : SearchEngine) (docId : String) :
    (e.forgetSurface docId).suggestDirty = e.suggestDirty := by
  rw [forgetSurface]
  split <;> rfl

theorem Consistent.forgetSurface_counts (h : e.Consistent) (docId : String) :
    Counter.Counts (e.forgetSurface docId).suggestDf
      (Search.docCount e.index.analyzer (e.index.docs.erase docId)) := by
  cases hdoc : e.index.docs.get? docId with
  | none =>
    rw [h.forgetSurface_of_none hdoc, Dict.ext (erase_eq_of_get?_none hdoc)]
    exact h.counts
  | some =>
  obtain ⟨hnodup, hmem⟩ := h.surfaceWords hdoc
  have hcount : ∀ word, e.docCount word =
      (if word ∈ e.index.surfaceWords docId then 1 else 0) +
        Search.docCount e.index.analyzer (e.index.docs.erase docId) word := by
    intro word
    simp only [hmem]
    exact total_erase hdoc _
  rw [forgetSurface]
  split
  next hempty =>
    intro word
    have hword := hcount word
    rw [hempty, if_neg not_mem_nil, Nat.zero_add] at hword
    rw [h.counts word, hword]
  next => exact h.counts.forget hnodup hcount

theorem Consistent.indexDoc (h : e.Consistent) (doc : Document) :
    ∃ e', e.indexDoc doc = some e' ∧ e'.Consistent ∧
      e'.index.docs = (e.index.docs.erase doc.docId).set doc.docId doc ∧
      e'.index.analyzer = e.index.analyzer ∧ e'.index.fieldWeights = e.index.fieldWeights := by
  obtain ⟨idx, hupsert, hcontents, hdocs, hanalyzer, hweights⟩ := h.contents.upsert doc
  refine ⟨_, by rw [SearchEngine.indexDoc, forgetSurface_index, hupsert]; rfl, ⟨hcontents, ?_, ?_⟩,
    hdocs, hanalyzer, hweights⟩
  · have hsurface : idx.surfaceWords doc.docId = (idx.analysis doc).surface := by
      rw [InvertedIndex.surfaceWords, hcontents.surface, hdocs, get?_set_self]
      rfl
    show Counter.Counts (Counter.add _ 1 (idx.surfaceWords doc.docId))
      (Search.docCount idx.analyzer idx.docs)
    rw [hsurface, hdocs, hanalyzer]
    apply (h.forgetSurface_counts doc.docId).add (analysis_surface_nodup _ _ _)
    intro word
    rw [Search.docCount, total_set_of_none (get?_erase_self _ _)]
    simp only [mem_analysis_surface, hanalyzer]
    rfl
  · intro hdirty
    cases hdirty

theorem Consistent.delete (h : e.Consistent) (docId : String) :
    ∃ removed e', e.delete docId = some (removed, e') ∧ e'.Consistent ∧
      e'.index.docs = e.index.docs.erase docId ∧
      e'.index.analyzer = e.index.analyzer ∧ e'.index.fieldWeights = e.index.fieldWeights := by
  cases hdoc : e.index.docs.get? docId with
  | none =>
    refine ⟨false, e, ?_, h, (Dict.ext (erase_eq_of_get?_none hdoc)).symm, rfl, rfl⟩
    rw [SearchEngine.delete, h.forgetSurface_of_none hdoc]
    simp [InvertedIndex.delete, hdoc]
  | some =>
    obtain ⟨idx, hdelete, hcontents, hdocs, hanalyzer, hweights⟩ := h.contents.delete hdoc
    refine ⟨true, _, by rw [SearchEngine.delete, forgetSurface_index, hdelete]; rfl,
      ⟨hcontents, ?_, ?_⟩, hdocs, hanalyzer, hweights⟩
    · show Counter.Counts (e.forgetSurface docId).suggestDf
        (Search.docCount idx.analyzer idx.docs)
      rw [hdocs, hanalyzer]
      exact h.forgetSurface_counts docId
    · intro hdirty
      simp at hdirty

theorem Consistent.refreshed (h : e.Consistent) :
    e.refreshed.Consistent ∧ e.refreshed.index = e.index ∧ e.refreshed.suggestDf = e.suggestDf ∧
      e.refreshed.suggestSorted = e.suggestDf.keys.insertionSort (· ≤ ·) := by
  rw [SearchEngine.refreshed]
  split
  next => exact ⟨⟨h.contents, h.counts, fun _ => rfl⟩, rfl, rfl, rfl⟩
  next hdirty => exact ⟨h, rfl, rfl, h.sorted (Bool.not_eq_true _ ▸ hdirty)⟩

end SearchEngine

end InterviewPrep.Search
