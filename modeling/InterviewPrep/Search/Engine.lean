/-
  From text to terms (search_platform.py): the words of a lowercased text, less the stop
  words, with their stems and positions.

  `InvertedIndex` (search_platform.py).  Sets of words are lists without duplicates; `none`
  stands for a `KeyError`.

  `SearchEngine` (search_platform.py): the index, the document counts of the surface words,
  and `suggest` with its sorted word list that is rebuilt when it is asked for.
-/
import InterviewPrep.Lib.Dict
import InterviewPrep.Lib.Python
import InterviewPrep.Lib.Run
import Mathlib.Data.List.Sort
import Mathlib.Data.Prod.Lex
import Mathlib.Data.String.Basic

namespace InterviewPrep.Search

open List

/-! ## Words -/

/-- `[a-z0-9]` -/
def wordChar (c : Char) : Bool := ('a' ≤ c && c ≤ 'z') || ('0' ≤ c && c ≤ '9')

def endWord (word : List Char) : List String := if word = [] then [] else [String.ofList word]

/-- `re.findall("[a-z0-9]+", ..)`, with the word that has begun. -/
def findWords (word : List Char) : List Char → List String
  | [] => endWord word
  | c :: cs => if wordChar c then findWords (word ++ [c]) cs else endWord word ++ findWords [] cs

theorem wordChar_of_mem_findWords {word text : List Char} (hword : ∀ c ∈ word, wordChar c)
    {w : String} (hw : w ∈ findWords word text) : ∀ c ∈ w.toList, wordChar c := by
  have hend : ∀ {word : List Char}, (∀ c ∈ word, wordChar c) → w ∈ endWord word →
      ∀ c ∈ w.toList, wordChar c := by
    intro word hword hw
    unfold endWord at hw
    split at hw
    · cases hw
    · rw [mem_singleton.mp hw, String.toList_ofList]
      exact hword
  induction text generalizing word with
  | nil => exact hend hword hw
  | cons c _ ih =>
    rw [findWords] at hw
    by_cases hc : wordChar c = true
    · rw [if_pos hc] at hw
      apply ih _ hw
      intro d hd
      rcases mem_append.mp hd with hd | hd
      · exact hword d hd
      · rw [mem_singleton.mp hd]
        exact hc
    · rw [if_neg hc] at hw
      rcases mem_append.mp hw with hw | hw
      · exact hend hword hw
      · exact ih (fun _ h => absurd h not_mem_nil) hw

/-! ## Stems -/

/-- `_SUFFIXES`, longest first -/
def suffixes : List String :=
  ["ational", "ization", "ations", "ation", "ments", "ment", "ness", "ings", "ing", "ies", "ers",
    "er", "ed", "ly", "s"]

/-- The stem that the suffix leaves, unless the next one is tried. -/
def stripSuffix (word : List Char) (suffix : String) : Option (List Char) :=
  if suffix.toList.isSuffixOf word then
    let stem := word.take (word.length - suffix.toList.length)
    if stem.length < (if suffix = "s" ∨ suffix = "ies" then 3 else 4) then none
    else if suffix = "ies" then some (stem ++ ['y'])
    else if suffix = "s" ∧ (stem.getLast? = some 's' ∨ stem.getLast? = some 'u') then some word
    else if suffix ∈ ["ing", "ings", "ed", "er", "ers"] ∧
        stem.getLast? = stem.dropLast.getLast? ∧
        ¬ stem.getLast?.any fun c => c ∈ "aeioulsz".toList then some stem.dropLast
    else some stem
  else none

/-- `light_stem` -/
def lightStem (word : String) : String :=
  if word.toList.length ≤ 3 ∨ word.toList.all Char.isDigit then word
  else
    match suffixes.findSome? (stripSuffix word.toList) with
    | some stem => String.ofList stem
    | none => word

example : ["patterns", "databases", "libraries", "running", "class", "string"].map lightStem =
    ["pattern", "database", "library", "run", "class", "string"] := by decide +kernel

/-! ## Tokens -/

structure Token where
  term : String
  surface : String
  position : Nat

/-- `Analyzer`, with Python's `str.lower` and `str.strip`. -/
structure Analyzer where
  stopWords : List String
  stem : String → String
  lower : String → String
  strip : String → String

/-- The tokens of the words from a position on; a stop word keeps its place. -/
def Analyzer.tokens (a : Analyzer) : Nat → List String → List Token
  | _, [] => []
  | position, word :: words =>
    if word ∈ a.stopWords then a.tokens (position + 1) words
    else ⟨a.stem word, word, position⟩ :: a.tokens (position + 1) words

/-- `analyze` -/
def Analyzer.analyze (a : Analyzer) (text : String) : List Token :=
  a.tokens 0 (findWords [] (a.lower text).toList)

theorem Analyzer.surface_mem {a : Analyzer} {position : Nat} {words : List String} {token : Token}
    (h : token ∈ a.tokens position words) : token.surface ∈ words := by
  induction words generalizing position with
  | nil => cases h
  | cons _ _ ih =>
    rw [tokens] at h
    split at h
    · exact mem_cons_of_mem _ (ih h)
    · rcases mem_cons.mp h with rfl | h
      · exact mem_cons_self
      · exact mem_cons_of_mem _ (ih h)

theorem Analyzer.wordChar_surface {a : Analyzer} {text : String} {token : Token}
    (h : token ∈ a.analyze text) : ∀ c ∈ token.surface.toList, wordChar c :=
  wordChar_of_mem_findWords (fun _ h => absurd h not_mem_nil) (Analyzer.surface_mem h)

open Lib

structure Document where
  docId : String
  title : String
  body : String
  tags : List String

inductive Field where
  | title
  | tags
  | body
deriving DecidableEq

/-- The positions of a term in a document, by field. -/
structure Posting where
  positions : Dict Field (List Nat)

/-- term -> document -> posting -/
abbrev Postings := Dict String (Dict String Posting)

def tagPositionGap : Nat := 100

structure InvertedIndex where
  analyzer : Analyzer
  fieldWeights : Field → ℚ
  postings : Postings
  /-- document -> its terms -/
  forward : Dict String (List String)
  /-- document -> its surface words -/
  surface : Dict String (List String)
  docs : Dict String Document
  docLen : Dict String ℚ
  totalLen : ℚ

/-! ## A document -/

/-- `posting.positions.setdefault(name, []).append(position)` -/
def Posting.add (p : Posting) (name : Field) (position : Nat) : Posting :=
  ⟨p.positions.set name ((p.positions.get? name).getD [] ++ [position])⟩

/-- The postings with the one of a term and a document changed, which is made when there is none. -/
def Postings.touch (ps : Postings) (term docId : String) (f : Posting → Posting) : Postings :=
  let plist := (ps.get? term).getD Dict.empty
  ps.set term (plist.set docId (f ((plist.get? docId).getD ⟨Dict.empty⟩)))

/-- The local variables of the loop in `upsert`. -/
structure Indexing where
  postings : Postings
  terms : List String
  surface : List String
  length : ℚ

def Indexing.addToken (docId : String) (name : Field) (acc : Indexing) (token : Token) :
    Indexing where
  postings := acc.postings.touch token.term docId fun p => p.add name token.position
  terms := acc.terms.insert token.term
  surface := acc.surface.insert token.surface
  length := acc.length

def Indexing.addField (weights : Field → ℚ) (docId : String) (acc : Indexing)
    (item : Field × List Token) : Indexing :=
  item.2.foldl (Indexing.addToken docId item.1)
    { acc with length := acc.length + weights item.1 * item.2.length }

/-- `_analyze_tags`, from the tag with a number on -/
def Analyzer.analyzeTags (a : Analyzer) : Nat → List String → List Token
  | _, [] => []
  | i, tag :: tags =>
    ((a.analyze tag).map fun t => ⟨t.term, t.surface, i * tagPositionGap + t.position⟩) ++
      a.analyzeTags (i + 1) tags

def Analyzer.fields (a : Analyzer) (doc : Document) : List (Field × List Token) :=
  [(.title, a.analyze doc.title), (.tags, a.analyzeTags 0 doc.tags), (.body, a.analyze doc.body)]

/-! ## Writes -/

/-- The loop body of `delete`. -/
def Postings.remove (docId : String) (ps : Postings) (term : String) : Option Postings :=
  let plist := (ps.get? term).getD Dict.empty
  match plist.get? docId with
  | none => none
  | some _ =>
    let plist := plist.erase docId
    if plist.items = [] then some (ps.erase term) else some (ps.set term plist)

namespace InvertedIndex

def new (analyzer : Analyzer) (fieldWeights : Field → ℚ) : InvertedIndex :=
  ⟨analyzer, fieldWeights, Dict.empty, Dict.empty, Dict.empty, Dict.empty, Dict.empty, 0⟩

variable (idx : InvertedIndex)

/-- Whether there was such a document. -/
def delete (docId : String) : Option (Bool × InvertedIndex) :=
  match idx.docs.get? docId with
  | none => some (false, idx)
  | some _ => do
      let terms ← idx.forward.get? docId
      let postings ← terms.foldlM (Postings.remove docId) idx.postings
      let _ ← idx.surface.get? docId
      let length ← idx.docLen.get? docId
      some (true,
        { idx with
          postings := postings
          forward := idx.forward.erase docId
          docs := idx.docs.erase docId
          surface := idx.surface.erase docId
          docLen := idx.docLen.erase docId
          totalLen := idx.totalLen - length })

/-- `upsert` of a document whose id is new. -/
def insert (doc : Document) : InvertedIndex :=
  let acc := (idx.analyzer.fields doc).foldl (Indexing.addField idx.fieldWeights doc.docId)
    ⟨idx.postings, [], [], 0⟩
  { idx with
    postings := acc.postings
    docs := idx.docs.set doc.docId doc
    forward := idx.forward.set doc.docId acc.terms
    surface := idx.surface.set doc.docId acc.surface
    docLen := idx.docLen.set doc.docId acc.length
    totalLen := idx.totalLen + acc.length }

def upsert (doc : Document) : Option InvertedIndex :=
  match idx.docs.get? doc.docId with
  | none => some (idx.insert doc)
  | some _ => (idx.delete doc.docId).map fun r => r.2.insert doc

def surfaceWords (docId : String) : List String := (idx.surface.get? docId).getD []

end InvertedIndex

/-- Python's `Counter`, which reads 0 at a key that it does not have. -/
abbrev Counter := Dict String Int

namespace Counter

def count (c : Counter) (word : String) : Int := (c.get? word).getD 0

/-- `update` and `subtract`, of a set of words -/
def add (c : Counter) (n : Int) (words : List String) : Counter :=
  words.foldl (fun c word => Dict.set c word (c.count word + n)) c

/-- The deletion of the words that are no longer counted. -/
def drop (c : Counter) (words : List String) : Counter :=
  words.foldl (fun c word => if c.count word ≤ 0 then Dict.erase c word else c) c

end Counter

structure SearchEngine where
  index : InvertedIndex
  /-- surface word -> number of documents with it -/
  suggestDf : Counter
  /-- sorted keys, rebuilt lazily -/
  suggestSorted : List String
  suggestDirty : Bool

namespace SearchEngine

def new (analyzer : Analyzer) (fieldWeights : Field → ℚ) : SearchEngine :=
  ⟨InvertedIndex.new analyzer fieldWeights, Dict.empty, [], false⟩

variable (e : SearchEngine)

/-- `_forget_surface` -/
def forgetSurface (docId : String) : SearchEngine :=
  let old := e.index.surfaceWords docId
  if old = [] then e else { e with suggestDf := (e.suggestDf.add (-1) old).drop old }

/-- `index` -/
def indexDoc (doc : Document) : Option SearchEngine :=
  let e := e.forgetSurface doc.docId
  (e.index.upsert doc).map fun index =>
    { e with
      index := index
      suggestDf := e.suggestDf.add 1 (index.surfaceWords doc.docId)
      suggestDirty := true }

def delete (docId : String) : Option (Bool × SearchEngine) :=
  let e := e.forgetSurface docId
  (e.index.delete docId).map fun (removed, index) =>
    (removed, { e with index := index, suggestDirty := e.suggestDirty || removed })

/-- `suggest` sorts by how common the word is, then by the word. -/
def suggestKey (word : String) : Lex (Int × String) := toLex (-e.suggestDf.count word, word)

/-- The word list, rebuilt when it is out of date. -/
def refreshed : SearchEngine :=
  if e.suggestDirty then
    { e with suggestSorted := e.suggestDf.keys.insertionSort (· ≤ ·), suggestDirty := false }
  else e

/-- The last character of the basic plane, behind every word that starts with the prefix. -/
def lastChar : Char := Char.ofNat 0xFFFF

/-- `matches`, by binary search for both ends. -/
def prefixMatches (p : String) : List String :=
  let lo := bisectLeft e.suggestSorted fun word => word < p
  let hi := bisectLeft e.suggestSorted fun word => word < p.push lastChar
  (e.suggestSorted.take hi).drop lo

/-- `suggest`; `heapq.nsmallest` is the beginning of the sorted list. -/
def suggest (pref : String) (limit : Int) : List String × SearchEngine :=
  let p := e.index.analyzer.strip (e.index.analyzer.lower pref)
  if p = "" then ([], e)
  else
    let e := e.refreshed
    (((e.prefixMatches p).insertionSort fun a b => e.suggestKey a ≤ e.suggestKey b).take
      limit.toNat, e)

end SearchEngine

/-! ## Calls -/

inductive SearchOp where
  | index (doc : Document)
  | delete (docId : String)
  | suggest (pref : String) (limit : Int)

inductive SearchAnswer where
  | nothing
  | removed (removed : Bool)
  | words (words : List String)

/-- A dictionary has no such key. -/
inductive KeyError where
  | missing

def SearchEngine.step (e : SearchEngine) : SearchOp → Except KeyError (SearchAnswer × SearchEngine)
  | .index doc =>
    match e.indexDoc doc with
    | none => .error .missing
    | some e => .ok (.nothing, e)
  | .delete docId =>
    match e.delete docId with
    | none => .error .missing
    | some (removed, e) => .ok (.removed removed, e)
  | .suggest pref limit =>
    let (words, e) := e.suggest pref limit
    .ok (.words words, e)

end InterviewPrep.Search
