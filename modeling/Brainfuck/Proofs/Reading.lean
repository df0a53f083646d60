import Brainfuck.Proofs.Lexing
import Brainfuck.Token.Reader
import Mathlib.Data.List.ReduceOption

/-!
# Reading loses and invents nothing

However a text is read, in single answers, all at once, or some answers first and then the rest, what
comes out are its command bytes, each with its index, in ascending order (`located`). Behind the last
of them comes the end, again and again.

A reader with an index goes where a lexer goes that forgets what it has read (`Reader.next_lexer`):
its loop stops at the next byte that is not a comment, and the lexer skips the same comments. So what
is said of the one holds of the other.

Main result: `Reader.reading_exact`.
-/

namespace Brainfuck

/-- The token that a byte is at its index, if it is a command. -/
def tokenOf? (place : UInt8 × Nat) : Option Token :=
  (Command.ofByte? place.1).map (⟨·, place.2⟩)

/-- The commands among the bytes, each with its index. -/
def located (bytes : List UInt8) : List Token := bytes.zipIdx.filterMap tokenOf?

/-! ## What is to be found -/

theorem tokenOf?_eq_some_iff {place : UInt8 × Nat} {t : Token} :
    tokenOf? place = some t ↔ place = (t.command.symbol.toUInt8, t.offset) := by
  obtain ⟨byte, index⟩ := place
  obtain ⟨c, offset⟩ := t
  rw [tokenOf?, Option.map_eq_some_iff, Prod.mk.injEq, ← Command.ofByte?_eq_some_iff]
  constructor
  · rintro ⟨c', hc', htoken⟩
    cases htoken
    exact ⟨hc', rfl⟩
  · rintro ⟨hc, rfl⟩
    exact ⟨c, hc, rfl⟩

theorem tokensFrom_eq_filterMap (offset : Nat) (bytes : List UInt8) :
    tokensFrom offset bytes = (bytes.zipIdx offset).filterMap tokenOf? := by
  induction bytes generalizing offset with
  | nil => rfl
  | cons byte rest ih =>
    rw [List.zipIdx_cons]
    cases h : Command.ofByte? byte with
    | none =>
      rw [tokensFrom_cons_comment rest h, ih, List.filterMap_cons_none]
      rw [tokenOf?, h, Option.map_none]
    | some c =>
      rw [tokensFrom_cons_command rest h, ih, List.filterMap_cons_some]
      rw [tokenOf?, h, Option.map_some]

/-- Every command byte is there, and nothing else. -/
theorem mem_located_iff {bytes : List UInt8} {c : Command} {index : Nat} :
    ⟨c, index⟩ ∈ located bytes ↔ bytes[index]? = some c.symbol.toUInt8 := by
  have hplace : (c.symbol.toUInt8, index) ∈ bytes.zipIdx ↔ _ := List.mem_zipIdx_iff_getElem?
  rw [located, List.mem_filterMap, ← hplace]
  constructor
  · rintro ⟨place, hplace, htoken⟩
    rw [tokenOf?_eq_some_iff] at htoken
    exact htoken ▸ hplace
  · intro hplace
    exact ⟨_, hplace, tokenOf?_eq_some_iff.mpr rfl⟩

/-- They stand in the order of the bytes. -/
theorem pairwise_located (bytes : List UInt8) :
    (located bytes).Pairwise fun s t => s.offset < t.offset := by
  have hindices : bytes.zipIdx.Pairwise fun x y => x.2 < y.2 := by
    rw [← List.pairwise_map, List.zipIdx_map_snd]
    exact List.pairwise_lt_range'
  rw [located, List.pairwise_filterMap]
  refine hindices.imp ?_
  intro x y hlt s hs t ht
  rw [tokenOf?_eq_some_iff.mp hs, tokenOf?_eq_some_iff.mp ht] at hlt
  exact hlt

/-! ## Answers of a lexer -/

namespace Lexer

theorem tokens_ofText_eq_located (text : String) :
    (ofText text).tokens = located text.toUTF8.data.toList := by
  rw [tokens_ofText, tokensFrom_eq_filterMap, toList_eq_data]
  rfl

theorem rest_of_nextFrom_none {offset : Nat} {bytes : List UInt8} {l : Lexer}
    (h : nextFrom offset bytes = (none, l)) : l.rest = [] := by
  fun_induction nextFrom offset bytes with
  | case1 =>
    cases h
    rfl
  | case2 => cases h
  | case3 _ _ _ _ ih => exact ih h

/-- Behind the end there is nothing but the end. -/
theorem next_of_none {l l' : Lexer} (h : l.next = (none, l')) : l'.next = (none, l') := by
  obtain ⟨rest, offset⟩ := l'
  obtain rfl : rest = [] := rest_of_nextFrom_none h
  rfl

/-- **Some answers and then all others** are all that there is. -/
theorem reduceOption_take_append (n : Nat) (l : Lexer) :
    (l.take n).1.reduceOption ++ (l.take n).2.tokens = l.tokens := by
  induction n generalizing l with
  | zero => rfl
  | succ n ih =>
    rcases hnext : l.next with ⟨token, l'⟩
    rw [take, hnext]
    cases token with
    | none =>
      rw [tokens_of_next_none hnext, ← tokens_of_next_none (next_of_none hnext)]
      exact ih l'
    | some t =>
      rw [tokens_of_next_some hnext, ← ih l']
      rfl

/-- One answer is the end exactly if all later ones are. -/
theorem next_eq_none_iff (l : Lexer) :
    l.next.1 = none ↔ ∀ k, (l.take k).1 = List.replicate k none := by
  constructor
  · intro h k
    induction k generalizing l with
    | zero => rfl
    | succ k ih =>
      rcases hnext : l.next with ⟨token, l'⟩
      obtain rfl : token = none := by rw [← h, hnext]
      have hlater := next_of_none hnext
      rw [take, hnext, List.replicate_succ, ← ih l' (by rw [hlater])]
  · intro h
    have hone := h 1
    exact (List.cons.inj hone).1

end Lexer

/-! ## A reader is a lexer -/

namespace Reader

/-- What is left of the text. -/
def lexer (r : Reader) : Lexer := ⟨r.bytes.toList.drop r.cursor, r.cursor⟩

variable {r : Reader} {byte : UInt8}

theorem lexer_of_none (h : r.bytes[r.cursor]? = none) : r.lexer = ⟨[], r.cursor⟩ := by
  have hend : r.bytes.toList.length ≤ r.cursor := Array.getElem?_eq_none_iff.mp h
  rw [lexer, List.drop_eq_nil_of_le hend]

theorem lexer_of_some (h : r.bytes[r.cursor]? = some byte) :
    r.lexer = ⟨byte :: r.advance.lexer.rest, r.cursor⟩ := by
  obtain ⟨hlt, hbyte⟩ := Array.getElem?_eq_some_iff.mp h
  have hlt' : r.cursor < r.bytes.toList.length := hlt
  rw [lexer, List.drop_eq_getElem_cons hlt', Array.getElem_toList, hbyte]
  rfl

/-- The lexer skips the comments that the loop has passed. -/
theorem next_lexer_skipComments (r : Reader) : r.skipComments.lexer.next = r.lexer.next := by
  fun_induction skipComments r with
  | case1 => rfl
  | case2 => rfl
  | case3 r byte h hcomment ih =>
    rw [nextByte_look] at h
    rw [ih, lexer_of_some h]
    exact (Lexer.next_cons_comment (Option.not_isSome_iff_eq_none.mp hcomment)).symm

/-- The loop does not stop at a comment. -/
theorem isSome_of_skipComments {r : Reader}
    (h : r.skipComments.bytes[r.skipComments.cursor]? = some byte) :
    (Command.ofByte? byte).isSome := by
  fun_induction skipComments r with
  | case1 r hend =>
    rw [nextByte_look, h] at hend
    cases hend
  | case2 r byte' hbyte hcommand =>
    rw [nextByte_look, h] at hbyte
    cases hbyte
    exact hcommand
  | case3 _ _ _ _ ih => exact ih h

/-- **A reader answers what the lexer does**, and is then at the same place. -/
theorem next_lexer (r : Reader) : r.lexer.next = (r.next.1, r.next.2.lexer) := by
  rw [← next_lexer_skipComments, next]
  cases hbyte : r.skipComments.bytes[r.skipComments.cursor]? with
  | none =>
    rw [takeUp_of_none hbyte, lexer_of_none hbyte]
    rfl
  | some byte =>
    obtain ⟨c, hc⟩ := Option.isSome_iff_exists.mp (isSome_of_skipComments hbyte)
    rw [takeUp_of_some hbyte, lexer_of_some hbyte, Lexer.next_cons_command hc, hc]
    rfl

theorem take_lexer (n : Nat) (r : Reader) :
    r.lexer.take n = ((r.take n).1, (r.take n).2.lexer) := by
  induction n generalizing r with
  | zero => rfl
  | succ n ih =>
    rw [Lexer.take, next_lexer]
    dsimp only
    rw [ih, take]

theorem collect_lexer (taken : List Token) (r : Reader) :
    r.lexer.collect taken = r.collect taken := by
  fun_induction collect taken r with
  | case1 taken r t r' h ih =>
    rw [Lexer.collect, next_lexer, h]
    exact ih
  | case2 taken r r' h =>
    rw [Lexer.collect, next_lexer, h]

theorem tokens_lexer (r : Reader) : r.lexer.tokens = r.tokens := collect_lexer [] r

theorem lexer_ofText (text : String) : (ofText text).lexer = .ofText text := by
  rw [Lexer.ofText, Lexer.ofBytes, toList_eq_data]
  rfl

/-- **Reading finds every command once**, at its index and in ascending order, whether by `n` answers
first and then all the rest, or in any other way. When the end is answered, it is answered ever
after. A lexer, which does not keep what it has read, answers the same. -/
theorem reading_exact (text : String) (n : Nat) :
    ((ofText text).take n).1.reduceOption ++ ((ofText text).take n).2.tokens =
      located text.toUTF8.data.toList ∧
    (∀ c index, ⟨c, index⟩ ∈ located text.toUTF8.data.toList ↔
      text.toUTF8.data[index]? = some c.symbol.toUInt8) ∧
    (located text.toUTF8.data.toList).Pairwise (fun s t => s.offset < t.offset) ∧
    (((ofText text).take n).2.next.1 = none ↔
      ∀ k, (((ofText text).take n).2.take k).1 = List.replicate k none) ∧
    (Lexer.ofText text).take n = (((ofText text).take n).1, ((ofText text).take n).2.lexer) ∧
    ((ofText text).take n).2.lexer.tokens = ((ofText text).take n).2.tokens := by
  have hlexer : (Lexer.ofText text).take n = _ := lexer_ofText text ▸ take_lexer n (ofText text)
  refine ⟨?_, fun _ _ => ?_, pairwise_located _, ?_, hlexer, tokens_lexer _⟩
  · have hall := Lexer.reduceOption_take_append n (Lexer.ofText text)
    rw [hlexer, tokens_lexer, Lexer.tokens_ofText_eq_located] at hall
    exact hall
  · rw [mem_located_iff, Array.getElem?_toList]
  · have hend := Lexer.next_eq_none_iff ((ofText text).take n).2.lexer
    rw [next_lexer] at hend
    simpa only [take_lexer] using hend

example : ((ofText "ü+ ]!").take 1).1 = [some ⟨.increment, 2⟩]
    ∧ ((ofText "ü+ ]!").take 1).2.tokens = [⟨.endLoop, 4⟩]
    ∧ ((ofText "ü+ ]!").take 4).1.drop 2 = [none, none] := by decide +kernel

end Reader

end Brainfuck
