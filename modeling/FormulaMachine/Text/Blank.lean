namespace FormulaMachine.Text

def isBlank (c : Char) : Bool :=
  let n := c.toNat
  (9 ≤ n && n ≤ 13) || n == 0x20 || n == 0x85 || n == 0xa0 || n == 0x1680 ||
    (0x2000 ≤ n && n ≤ 0x200a) || n == 0x2028 || n == 0x2029 || n == 0x202f || n == 0x205f ||
    n == 0x3000

def trimEnd (cs : List Char) : List Char :=
  (cs.reverse.dropWhile isBlank).reverse

def trim (cs : List Char) : List Char :=
  trimEnd (cs.dropWhile isBlank)

def flush : List Char → List (List Char)
  | [] => []
  | c :: cs => [(c :: cs).reverse]

def wordsFrom (seen : List Char) : List Char → List (List Char)
  | [] => flush seen
  | c :: cs => if isBlank c then flush seen ++ wordsFrom [] cs else wordsFrom (c :: seen) cs

def words (cs : List Char) : List (List Char) :=
  wordsFrom [] cs

theorem ne_nil_of_mem_wordsFrom {w seen cs : List Char} (h : w ∈ wordsFrom seen cs) : w ≠ [] := by
  induction cs generalizing seen with
  | nil =>
      cases seen with
      | nil => simp [wordsFrom, flush] at h
      | cons c r => simp [wordsFrom, flush] at h; simp [h]
  | cons c cs ih =>
      rw [wordsFrom] at h
      split at h
      · rcases List.mem_append.1 h with h | h
        · cases seen with
          | nil => simp [flush] at h
          | cons d r => simp [flush] at h; simp [h]
        · exact ih h
      · exact ih h

theorem ne_nil_of_mem_words {w cs : List Char} (h : w ∈ words cs) : w ≠ [] :=
  ne_nil_of_mem_wordsFrom h

def piecesFrom (sep : Char) (seen : List Char) : List Char → List (List Char × Bool)
  | [] => (flush seen).map (·, false)
  | c :: cs =>
      if c = sep then (seen.reverse, true) :: piecesFrom sep [] cs
      else piecesFrom sep (c :: seen) cs

def pieces (sep : Char) (cs : List Char) : List (List Char × Bool) :=
  piecesFrom sep [] cs

def dropReturn (cs : List Char) : List Char :=
  if cs.getLast? = some '\r' then cs.dropLast else cs

def lines (cs : List Char) : List (List Char) :=
  (pieces '\n' cs).map fun (line, ended) => if ended then dropReturn line else line

end FormulaMachine.Text
