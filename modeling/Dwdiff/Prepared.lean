/-
This file puts the tokenizer and the comparison together in single-byte mode: what
`prepareAndExecuteDiff` has read of the two inputs is what `doDiff` needs to be
called with, and two words have the same number only if they have the same key.
-/

import Dwdiff.Conservation
import Dwdiff.Paragraphs

namespace Dwdiff

open Diff Outcome Interning

/-- The keys of the words. -/
def keysOf (options : Options) (locale : Locale) (words : List Word) : List (List UInt8) :=
  (words.map Word.token).map (comparisonKey options locale)

theorem keysOf_length (options : Options) (locale : Locale) (words : List Word) :
    (keysOf options locale words).length = words.length := by
  rw [keysOf, List.length_map, List.length_map]

theorem keysOf_getElem? (options : Options) (locale : Locale) (words : List Word) (i : Nat) :
    (keysOf options locale words)[i]? =
      words[i]?.map fun word => comparisonKey options locale word.token := by
  rw [keysOf, List.getElem?_map, List.getElem?_map, Option.map_map]
  rfl

section Filed

variable {options : Options} {locale : Locale} {known : List (List UInt8)} {input : List UInt8}
  {words : List Word} {last : List UInt8} {reading : Reading}

variable (filed : Filed options locale known input words last reading)

include filed

theorem Filed.ids :
    reading.diffTokens = (keysOf options locale words).map
      (internAll known (keysOf options locale words)).idxOf := by
  obtain ⟨_, _, stored⟩ := filed.stored
  exact stored.diffTokens

theorem Filed.ids_length : reading.diffTokens.length = words.length := by
  rw [filed.ids, List.length_map, keysOf_length]

theorem Filed.interns :
    Interns reading.hashtable (internAll known (keysOf options locale words)) := by
  obtain ⟨_, _, stored⟩ := filed.stored
  exact stored.hashtable

/-- The text that `doDiff` gets to see. -/
def Filed.toText (filed : Filed options locale known input words last reading) : Text :=
  byteText reading.diffTokens (words.map Word.run ++ [last]) (words.map Word.token)
    (by rw [filed.ids_length, List.length_append, List.length_map, List.length_singleton])
    (by rw [filed.ids_length, List.length_map])

/-- The bytes of the two temporary files. -/
theorem Filed.bytes :
    reading.tokens = (words.map Word.token).flatMap escaped ∧
      reading.whitespace = (words.map Word.run ++ [last]).flatMap escaped := by
  obtain ⟨_, _, stored⟩ := filed.stored
  have tokens := stored.tokenFile
  rw [List.flatMap_nil, List.append_nil] at tokens
  exact ⟨tokens, stored.whitespace⟩

theorem Filed.written :
    WrittenAs (emptyFile.filled reading) reading.diffTokens (words.map Word.run ++ [last])
      (words.map Word.token) := by
  refine ⟨rfl, ?_, ?_, rfl⟩
  · rw [← filed.bytes.1]
    rfl
  · rw [← filed.bytes.2]
    rfl

end Filed

/-- What `prepareAndExecuteDiff` hands to `doDiff`. -/
structure Prepared (options : Options) (locale : Locale) (old new : List UInt8)
    (oldWords newWords : List Word) (oldLast newLast : List UInt8)
    (oldReading newReading : Reading) : Prop where
  oldFiled : Filed options locale [] old oldWords oldLast oldReading
  newFiled : Filed options locale (internAll [] (keysOf options locale oldWords)) new newWords
    newLast newReading
  fitting : Fitting oldReading.diffTokens newReading.diffTokens
    (initialPrinting.filled oldReading newReading).baseHashMax

section Prepared

variable {options : Options} {locale : Locale} {old new : List UInt8}
  {oldWords newWords : List Word} {oldLast newLast : List UInt8} {oldReading newReading : Reading}

section Texts

variable (prepared : Prepared options locale old new oldWords newWords oldLast newLast oldReading
  newReading)

include prepared

/-- The texts of both inputs. -/
def Prepared.texts : Side → Text :=
  pick prepared.oldFiled.toText prepared.newFiled.toText

theorem Prepared.ready (singleByte : options.utf8Mode = false) :
    Ready options locale prepared.texts (initialPrinting.filled oldReading newReading) :=
  ready_of_written singleByte _ _ _ _ prepared.oldFiled.written prepared.newFiled.written rfl rfl
    prepared.fitting

/-- Words with the same number have the same key. -/
theorem Prepared.same_key {i j : Nat} {oldWord newWord : Word}
    (isOld : oldWords[i]? = some oldWord) (isNew : newWords[j]? = some newWord)
    (same : oldReading.diffTokens[i]? = newReading.diffTokens[j]?) :
    comparisonKey options locale oldWord.token = comparisonKey options locale newWord.token := by
  have isKey := keysOf_getElem? options locale oldWords i
  rw [prepared.oldFiled.ids, prepared.newFiled.ids, List.getElem?_map, List.getElem?_map, isKey,
    keysOf_getElem?, isOld, isNew] at same
  rw [isOld] at isKey
  simp only [Option.map_some, Option.some.injEq] at same
  have seen := mem_internAll (List.mem_of_getElem? isKey) []
  rw [← idxOf_internAll seen (keysOf options locale newWords)] at same
  exact (idxOf_inj_of_mem (mem_internAll_of_mem seen _)).mp same

end Texts

/-- A run of `prepareAndExecuteDiff` is a run of `doDiff` on what was read. -/
theorem exists_prepared (singleByte : options.utf8Mode = false) {charData : CharData}
    {executed : Executed} (size : old.length + new.length < 2 ^ 56)
    (returns : prepareAndExecuteDiff options locale old new charData initialPrinting =
      .ok executed) :
    ∃ oldWords newWords oldLast newLast oldReading newReading,
      Prepared options locale old new oldWords newWords oldLast newLast oldReading newReading ∧
      readFile options locale old charData Hashtable.empty = .ok (executed.oldTotal, oldReading) ∧
      readFile options locale new oldReading.charData oldReading.hashtable =
        .ok (executed.newTotal, newReading) ∧
      doDiff options locale (initialPrinting.filled oldReading newReading) =
        .ok executed.state := by
  have bound : (2 : Nat) ^ 56 + 2 < valueMax := by decide
  obtain ⟨oldCount, oldReading, oldWords, oldLast, readsOld, oldFiled, -⟩ :=
    @readFile_filed options locale singleByte old charData Hashtable.empty [] Interns.empty
      (by rw [List.length_nil]; omega)
  have oldFew := internAll_length_le [] (keysOf options locale oldWords)
  rw [List.length_nil, Nat.zero_add, keysOf_length] at oldFew
  have fewOld := oldFiled.few
  obtain ⟨newCount, newReading, newWords, newLast, readsNew, newFiled, -⟩ :=
    @readFile_filed options locale singleByte new oldReading.charData _ _ oldFiled.interns
      (by omega)
  have fewNew := newFiled.few
  unfold prepareAndExecuteDiff at returns
  rw [show initialPrinting.hashtable = Hashtable.empty from rfl, readsOld, ok_bind] at returns
  dsimp only at returns
  rw [readsNew, ok_bind] at returns
  obtain ⟨final, diffs, isExecuted⟩ := bind_eq_ok.mp returns
  cases isExecuted
  refine ⟨oldWords, newWords, oldLast, newLast, oldReading, newReading,
    ⟨oldFiled, newFiled, ?_⟩, readsOld, readsNew, diffs⟩
  have isMax : (initialPrinting.filled oldReading newReading).baseHashMax =
      (internAll (internAll [] (keysOf options locale oldWords))
        (keysOf options locale newWords)).length := newFiled.interns.nextValue
  have maxLe := internAll_length_le (internAll [] (keysOf options locale oldWords))
    (keysOf options locale newWords)
  rw [keysOf_length] at maxLe
  have oldLength := oldFiled.ids_length
  have newLength := newFiled.ids_length
  refine ⟨fun word isOne => ?_, fun word isOne => ?_, ?_, ?_⟩
  · rw [oldFiled.ids] at isOne
    obtain ⟨key, isKey, rfl⟩ := List.mem_map.mp isOne
    have seen := mem_internAll isKey []
    rw [isMax, ← idxOf_internAll seen (keysOf options locale newWords)]
    exact List.idxOf_lt_length_iff.mpr (mem_internAll_of_mem seen _)
  · rw [newFiled.ids] at isOne
    obtain ⟨key, isKey, rfl⟩ := List.mem_map.mp isOne
    rw [isMax]
    exact List.idxOf_lt_length_iff.mpr (mem_internAll isKey _)
  · rw [isMax]
    omega
  · omega

end Prepared

end Dwdiff
