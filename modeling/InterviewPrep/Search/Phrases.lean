/-
  Quoted phrases (search_platform.py): `_with_gaps` lays out the terms of a phrase, and
  `_has_phrase` looks for them at consecutive positions of one field.

  `_analyze_tags` numbers the words of each tag from a multiple of `TAG_POSITION_GAP`, so that no
  phrase matches across two tags.  But a long tag runs on into the numbers of the next one, and a
  phrase may have gaps for more stop words: phrases stay in one tag up to the length by which the
  words of different tags are apart (`TagsApart`).
-/
import InterviewPrep.Search.History

namespace InterviewPrep.Search

open List Lib

/-- `_with_gaps`: the terms, with `""` for a stop word between them. -/
def withGaps (tokens : List Token) : List String :=
  tokens.foldl (fun out t =>
    out ++ replicate (t.position - (tokens.head?.map Token.position).getD 0 - out.length) "" ++
      [t.term]) []

/-- `anchors`: the terms of a phrase with their offsets. -/
def anchors (phrase : List String) : List (Nat × String) :=
  (phrase.zipIdx.filter fun entry => entry.1 ≠ "").map Prod.swap

def Postings.positions (ps : Postings) (docId : String) (field : Field) (term : String) :
    List Nat :=
  ((ps.posting term docId).bind fun posting => posting.positions.get? field).getD []

namespace InvertedIndex

variable (idx : InvertedIndex)

def docsWith (term : String) : Dict String Posting := (idx.postings.get? term).getD Dict.empty

/-- `posting.positions.get(fld, ())`, of no posting too. -/
def positions (docId : String) (field : Field) (term : String) : List Nat :=
  (((idx.docsWith term).get? docId).bind fun posting => posting.positions.get? field).getD []

/-- The other terms are in place when the phrase begins at `base`. -/
def inPlace (docId : String) (field : Field) (others : List (Nat × String)) (base : Int) : Bool :=
  others.all fun anchor => base + anchor.1 ∈ (idx.positions docId field anchor.2).map Int.ofNat

/-- `_has_phrase`; `none` for the `IndexError` of a phrase without terms. -/
def hasPhrase (docId : String) (phrase : List String) : Option Bool :=
  match anchors phrase with
  | [] => none
  | first :: others =>
    match (idx.docsWith first.2).get? docId with
    | none => some false
    | some posting => some (posting.positions.items.any fun (field, starts) =>
        starts.any fun p => idx.inPlace docId field others (p - first.1))

/-- `_has_phrase` returns `True` in the field, for a phrase that begins at `base`. -/
def FoundAt (docId : String) (field : Field) (phrase : List String) (base : Int) : Prop :=
  ∃ first others, anchors phrase = first :: others ∧
    base + first.1 ∈ (idx.positions docId field first.2).map Int.ofNat ∧
    idx.inPlace docId field others base = true

variable {idx} {docId : String} {field : Field} {phrase : List String}

theorem hasPhrase_iff :
    idx.hasPhrase docId phrase = some true ↔ ∃ field base, idx.FoundAt docId field phrase base := by
  unfold hasPhrase FoundAt
  cases anchors phrase with
  | nil => simp
  | cons first others =>
  cases hposting : (idx.docsWith first.2).get? docId with
  | none => simp [positions, hposting]
  | some posting =>
  have hpositions : ∀ field, idx.positions docId field first.2 =
      (posting.positions.get? field).getD [] := fun field => by rw [positions, hposting]; rfl
  simp only [hposting, Option.some.injEq, any_eq_true, cons.injEq]
  constructor
  · rintro ⟨⟨field, starts⟩, hitem, p, hp, hplace⟩
    refine ⟨field, p - first.1, first, others, ⟨rfl, rfl⟩, ?_, hplace⟩
    rw [hpositions, Dict.mem_items.mp hitem, Int.sub_add_cancel]
    exact mem_map_of_mem hp
  rintro ⟨field, base, _, _, ⟨rfl, rfl⟩, hfirst, hplace⟩
  obtain ⟨p, hp, hbase⟩ := mem_map.mp hfirst
  rw [hpositions] at hp
  have hp' : (p : Int) - first.1 = base := Int.sub_eq_iff_eq_add.mpr hbase
  cases hstarts : posting.positions.get? field with
  | none =>
    rw [hstarts] at hp
    cases hp
  | some starts =>
    rw [hstarts] at hp
    exact ⟨(field, starts), Dict.mem_items.mpr hstarts, p, hp, by rwa [hp']⟩

theorem foundAt_iff {base : Int} : idx.FoundAt docId field phrase base ↔
    anchors phrase ≠ [] ∧ ∀ anchor ∈ anchors phrase,
      base + anchor.1 ∈ (idx.positions docId field anchor.2).map Int.ofNat := by
  unfold FoundAt inPlace
  cases anchors phrase with
  | nil => simp
  | cons => simp [and_assoc]

/-! ## The positions of a document -/

theorem positions_eq (idx : InvertedIndex) (docId : String) (field : Field) (term : String) :
    idx.positions docId field term = idx.postings.positions docId field term := by
  unfold positions docsWith Postings.positions Postings.posting
  cases idx.postings.get? term <;> rfl

variable {term : String}

theorem mem_addToken {acc : Indexing} {name : Field} {token : Token} {p : Nat} :
    p ∈ (acc.addToken docId name token).postings.positions docId field term ↔
      p ∈ acc.postings.positions docId field term ∨
        name = field ∧ token.term = term ∧ token.position = p := by
  have hadd : ∀ q : Posting, p ∈ ((q.add name token.position).positions.get? field).getD [] ↔
      p ∈ (q.positions.get? field).getD [] ∨ name = field ∧ token.position = p := by
    intro q
    rw [Posting.add, Dict.get?_set]
    by_cases hfield : field = name
    · subst hfield
      simp [eq_comm]
    · simp [hfield, Ne.symm hfield]
  unfold Postings.positions
  show p ∈ (((Postings.touch _ _ _ _).posting term docId).bind _).getD [] ↔ _
  rw [Postings.posting_touch]
  by_cases hterm : term = token.term
  · subst hterm
    rw [if_pos ⟨rfl, rfl⟩, Option.bind_some, hadd]
    cases acc.postings.posting token.term docId <;> simp
  · rw [if_neg fun h => hterm h.1]
    simp [Ne.symm hterm]

theorem mem_analysis_positions {analyzer : Analyzer} (weights : Field → ℚ) {doc : Document}
    {p : Nat} :
    p ∈ (Search.analysis analyzer weights doc).postings.positions doc.docId field term ↔
      ∃ item ∈ analyzer.fields doc, item.1 = field ∧
        ∃ token ∈ item.2, token.term = term ∧ token.position = p := by
  have htokens : ∀ (name : Field) (tokens : List Token) (acc : Indexing),
      p ∈ (tokens.foldl (Indexing.addToken doc.docId name) acc).postings.positions doc.docId field
          term ↔
        p ∈ acc.postings.positions doc.docId field term ∨
          name = field ∧ ∃ token ∈ tokens, token.term = term ∧ token.position = p := by
    intro name tokens
    induction tokens with
    | nil => simp
    | cons _ _ ih =>
      intro acc
      rw [foldl_cons, ih, mem_addToken, or_assoc, ← and_or_left]
      simp only [mem_cons, exists_eq_or_imp]
  have hfields : ∀ (fields : List (Field × List Token)) (acc : Indexing),
      p ∈ (fields.foldl (Indexing.addField weights doc.docId) acc).postings.positions doc.docId
          field term ↔
        p ∈ acc.postings.positions doc.docId field term ∨
          ∃ item ∈ fields, item.1 = field ∧
            ∃ token ∈ item.2, token.term = term ∧ token.position = p := by
    intro fields
    induction fields with
    | nil => simp
    | cons item _ ih =>
      intro acc
      simp only [foldl_cons, ih, mem_cons, exists_eq_or_imp]
      rw [← or_assoc]
      apply or_congr_left
      exact htokens item.1 item.2 _
  rw [Search.analysis, hfields]
  simp [Postings.positions, Postings.posting]

theorem Contents.mem_positions (h : idx.Contents) {doc : Document}
    (hdoc : idx.docs.get? docId = some doc) {p : Nat} :
    p ∈ idx.positions docId field term ↔ ∃ item ∈ idx.analyzer.fields doc, item.1 = field ∧
      ∃ token ∈ item.2, token.term = term ∧ token.position = p := by
  rw [positions_eq, ← mem_analysis_positions idx.fieldWeights, h.keyed docId doc hdoc,
    Postings.positions, h.posting, hdoc]
  rfl

end InvertedIndex

/-! ## Tags -/

/-- A word of the tag with the number `i` has the term and the position. -/
def Analyzer.InTag (a : Analyzer) (doc : Document) (i : Nat) (term : String)
    (position : Int) : Prop :=
  ∃ tag, doc.tags[i]? = some tag ∧ ∃ token ∈ a.analyze tag,
    token.term = term ∧ ((i * tagPositionGap + token.position : Nat) : Int) = position

theorem Analyzer.mem_analyzeTags {a : Analyzer} {token : Token} (n : Nat) (tags : List String) :
    token ∈ a.analyzeTags n tags ↔ ∃ i tag, tags[i]? = some tag ∧ ∃ t ∈ a.analyze tag,
      (⟨t.term, t.surface, (n + i) * tagPositionGap + t.position⟩ : Token) = token := by
  induction tags generalizing n with
  | nil => simp [analyzeTags]
  | cons tag _ ih =>
    rw [analyzeTags, mem_append, ih, mem_map]
    constructor
    · rintro (⟨t, ht, rfl⟩ | ⟨i, tag', htag, t, ht, rfl⟩)
      · exact ⟨0, tag, rfl, t, ht, rfl⟩
      · exact ⟨i + 1, tag', htag, t, ht, by rw [Nat.add_right_comm]; rfl⟩
    · rintro ⟨_ | i, tag', htag, t, ht, rfl⟩
      · cases htag
        exact .inl ⟨t, ht, rfl⟩
      · exact .inr ⟨i, tag', htag, t, ht, by rw [Nat.add_right_comm]; rfl⟩

theorem InvertedIndex.Contents.mem_tagPositions {idx : InvertedIndex} (h : idx.Contents)
    {doc : Document} (hdoc : idx.docs.get? docId = some doc) {term : String} {position : Int} :
    position ∈ (idx.positions docId .tags term).map Int.ofNat ↔
      ∃ i, idx.analyzer.InTag doc i term position := by
  have hfields : ∀ q : Token → Prop,
      (∃ item ∈ idx.analyzer.fields doc, item.1 = .tags ∧ ∃ token ∈ item.2, q token) ↔
        ∃ token ∈ idx.analyzer.analyzeTags 0 doc.tags, q token := by
    intro q
    simp [Analyzer.fields]
  simp only [mem_map, h.mem_positions hdoc, hfields, Analyzer.mem_analyzeTags, Nat.zero_add]
  constructor
  · rintro ⟨p, ⟨token, ⟨i, tag, htag, t, ht, rfl⟩, rfl, rfl⟩, rfl⟩
    exact ⟨i, tag, htag, t, ht, rfl, rfl⟩
  · rintro ⟨i, tag, htag, t, ht, rfl, rfl⟩
    exact ⟨_, ⟨_, ⟨i, tag, htag, t, ht, rfl⟩, rfl, rfl⟩, rfl⟩

/-! ## Phrases and tags -/

variable {phrase : List String}

theorem mem_anchors {anchor : Nat × String} :
    anchor ∈ anchors phrase ↔ phrase[anchor.1]? = some anchor.2 ∧ anchor.2 ≠ "" := by
  obtain ⟨offset, term⟩ := anchor
  simp [anchors, mem_zipIdx_iff_getElem?]

theorem anchors_nodup (phrase : List String) : ((anchors phrase).map Prod.fst).Nodup := by
  have hsnd : (phrase.zipIdx.map Prod.snd).Nodup := by
    rw [zipIdx_map_snd]
    exact nodup_range'
  rw [anchors, map_map]
  exact hsnd.sublist (filter_sublist.map Prod.snd)

/-- Words of different tags that are at different positions are more than `span` apart. -/
def Analyzer.TagsApart (a : Analyzer) (doc : Document) (span : Nat) : Prop :=
  ∀ i j term term' position position', a.InTag doc i term position →
    a.InTag doc j term' position' → term ≠ "" → term' ≠ "" → position < position' →
    position' ≤ position + span → i = j

/-- A phrase that is found in the tags is in one tag, and no word of another tag is in its place. -/
def Analyzer.OneTag (a : Analyzer) (doc : Document) (phrase : List String) (base : Int) : Prop :=
  ∃ i, ∀ anchor ∈ anchors phrase, ∀ j, a.InTag doc j anchor.2 (base + anchor.1) ↔ j = i

theorem Analyzer.TagsApart.oneTag {a : Analyzer} {doc : Document} {span : Nat}
    (h : a.TagsApart doc span) {base : Int}
    (hlength : phrase.length ≤ span + 1) (htwo : 2 ≤ (anchors phrase).length)
    (hfound : ∀ anchor ∈ anchors phrase, ∃ i, a.InTag doc i anchor.2 (base + anchor.1)) :
    a.OneTag doc phrase base := by
  -- two terms of the phrase are in the same tag
  have hsame : ∀ x ∈ anchors phrase, ∀ y ∈ anchors phrase, x.1 ≠ y.1 → ∀ {i j},
      a.InTag doc i x.2 (base + x.1) → a.InTag doc j y.2 (base + y.1) → i = j := by
    have hbefore : ∀ x ∈ anchors phrase, ∀ y ∈ anchors phrase, x.1 < y.1 → ∀ {i j},
        a.InTag doc i x.2 (base + x.1) → a.InTag doc j y.2 (base + y.1) → i = j := by
      intro x hx y hy hlt i j hi hj
      obtain ⟨hget, hterm'⟩ := mem_anchors.mp hy
      have := (List.getElem?_eq_some_iff.mp hget).1
      exact h i j _ _ _ _ hi hj (mem_anchors.mp hx).2 hterm' (by omega) (by omega)
    intro x hx y hy hne i j hi hj
    rcases hne.lt_or_gt with hlt | hlt
    · exact hbefore x hx y hy hlt hi hj
    · exact (hbefore y hy x hx hlt hj hi).symm
  obtain ⟨x, y, rest, heq⟩ : ∃ x y rest, anchors phrase = x :: y :: rest := by
    match hanchors : anchors phrase, htwo with
    | x :: y :: rest, _ => exact ⟨x, y, rest, rfl⟩
  have hx : x ∈ anchors phrase := by simp [heq]
  have hy : y ∈ anchors phrase := by simp [heq]
  have hxy : x.1 ≠ y.1 := by
    have hnodup := anchors_nodup phrase
    rw [heq] at hnodup
    simp only [map_cons, nodup_cons, mem_cons, not_or] at hnodup
    exact hnodup.1.1
  obtain ⟨i, hi⟩ := hfound x hx
  have honly : ∀ z ∈ anchors phrase, ∀ j, a.InTag doc j z.2 (base + z.1) → j = i := by
    intro z hz j hj
    by_cases hzx : z.1 = x.1
    · obtain ⟨k, hk⟩ := hfound y hy
      exact (hsame z hz y hy (hzx ▸ hxy) hj hk).trans (hsame y hy x hx hxy.symm hk hi)
    · exact hsame z hz x hx hzx hj hi
  refine ⟨i, fun z hz j => ⟨honly z hz j, ?_⟩⟩
  rintro rfl
  obtain ⟨k, hk⟩ := hfound z hz
  rwa [honly z hz k hk] at hk

theorem anchors_pair {term term' : String} (hterm : term ≠ "") (hterm' : term' ≠ "") (n : Nat) :
    anchors (term :: (replicate n "" ++ [term'])) = [(0, term), (n + 1, term')] := by
  have hgap : ((replicate n "").zipIdx 1).filter (fun entry => entry.1 ≠ "") = [] := by
    rw [filter_eq_nil_iff]
    rintro ⟨word, k⟩ hmem
    have hword : word = "" := eq_of_mem_replicate (fst_mem_of_mem_zipIdx hmem)
    simp [hword]
  simp only [anchors, zipIdx_cons, zipIdx_append, zipIdx_nil, filter_cons, filter_append, hgap]
  simp [hterm, hterm', Nat.add_comm]

/-- What `_has_phrase` finds in the tags of a document, over at most `span + 1` positions, is in
    one tag, for exactly the documents whose tags are that far apart. -/
theorem run_oneTag_iff (analyzer : Analyzer) (weights : Field → ℚ) (ops : List SearchOp) :
    ∃ answers e, runSteps SearchEngine.step (SearchEngine.new analyzer weights) ops =
      .ok (answers, e) ∧
      (∀ docId phrase, e.index.hasPhrase docId phrase = some true ↔
        ∃ field base, e.index.FoundAt docId field phrase base) ∧
      ∀ docId doc, latest ops docId = some doc → ∀ span : Nat,
        (∀ phrase base, phrase.length ≤ span + 1 → 2 ≤ (anchors phrase).length →
          e.index.FoundAt docId .tags phrase base → analyzer.OneTag doc phrase base) ↔
        analyzer.TagsApart doc span := by
  obtain ⟨answers, e, hrun, he, hdocs, rfl, -⟩ := SearchEngine.new_run analyzer weights ops
  refine ⟨answers, e, hrun, fun _ _ => InvertedIndex.hasPhrase_iff,
    fun docId doc hdoc span => ⟨fun h => ?_, fun h => ?_⟩⟩
  all_goals rw [← hdocs] at hdoc
  · intro i j term term' position position' hi hj hterm hterm' hlt hle
    obtain ⟨n, hn⟩ : ∃ n : Nat, position' = position + (n + 1 : Nat) :=
      ⟨(position' - position - 1).toNat, by omega⟩
    have hanchors := anchors_pair hterm hterm' n
    subst hn
    have hfound : e.index.FoundAt docId .tags (term :: (replicate n "" ++ [term'])) position := by
      rw [InvertedIndex.foundAt_iff, hanchors]
      simp only [he.contents.mem_tagPositions hdoc, forall_mem_cons]
      exact ⟨cons_ne_nil _ _, ⟨i, by simpa using hi⟩, ⟨j, hj⟩, nofun⟩
    obtain ⟨k, hk⟩ := h _ position (by simp; omega) (by rw [hanchors]; rfl) hfound
    rw [hanchors] at hk
    exact ((hk (0, term) (by simp) i).mp (by simpa using hi)).trans
      ((hk (n + 1, term') (by simp) j).mp hj).symm
  · intro phrase base hlength htwo hfound
    refine h.oneTag hlength htwo fun anchor hanchor => ?_
    exact (he.contents.mem_tagPositions hdoc).mp
      ((InvertedIndex.foundAt_iff.mp hfound).2 anchor hanchor)

/-- A phrase with as many stop words between its words as there are numbers for a tag. -/
def farApart : List String := withGaps (SearchEngine.plainAnalyzer.analyze
  (String.intercalate " " ("python" :: (replicate 99 "the" ++ ["design"]))))

theorem farApart_eq : farApart = "python" :: (replicate 99 "" ++ ["design"]) := by
  simp only [farApart, Analyzer.analyze, SearchEngine.plainAnalyzer, id_eq,
    String.toList_intercalate]
  decide +kernel

theorem hasPhrase_acrossTags :
    ∃ answers e, runSteps SearchEngine.step (SearchEngine.new SearchEngine.plainAnalyzer fun _ => 1)
        [.index ⟨"d", "", "", ["python", "design"]⟩] = .ok (answers, e) ∧
      e.index.hasPhrase "d" farApart = some true ∧
      ¬ ∃ tag ∈ ["python", "design"], ∀ anchor ∈ anchors farApart,
        anchor.2 ∈ (SearchEngine.plainAnalyzer.analyze tag).map Token.term := by
  rw [farApart_eq]
  refine exists_run_of_observe
    (f := fun r => r.2.index.hasPhrase "d" ("python" :: (replicate 99 "" ++ ["design"])))
    (b := some true) (by decide +kernel) fun answers e hrun hphrase => ?_
  exact ⟨hphrase, by decide +kernel⟩

end InterviewPrep.Search
