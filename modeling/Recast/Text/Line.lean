import Recast.Text.Blank

/-!
Lines. A line ends with a break: a line feed, a carriage return, both together, or one of eight
further characters. `flatten_lines` says that the lines of a text make up the text.
-/

namespace Recast.Text

def isBreak (c : Char) : Bool :=
  let n := c.toNat
  (10 ≤ n && n ≤ 13) || (28 ≤ n && n ≤ 30) || n = 133 || n = 8232 || n = 8233

/-- The lines of a text, each with its break. -/
def lines : Text → List Text
  | [] => []
  | '\r' :: '\n' :: r => ['\r', '\n'] :: lines r
  | c :: r =>
    if isBreak c then [c] :: lines r
    else match lines r with
      | [] => [[c]]
      | l :: ls => (c :: l) :: ls

/-- A line without its break. -/
def bare (line : Text) : Text :=
  match line.reverse with
  | '\n' :: '\r' :: r => r.reverse
  | c :: r => if isBreak c then r.reverse else line
  | [] => []

def bareLines (s : Text) : List Text := (lines s).map bare

def isReturnOrFeed (c : Char) : Bool := c = '\r' || c = '\n'

/-- The carriage returns and line feeds that a text ends with. -/
def ending (s : Text) : Text := takeEndWhile isReturnOrFeed s

def dropEnding (s : Text) : Text := dropEndWhile isReturnOrFeed s

/-- A line feed at the end, with the carriage return before it if there is one. -/
def feedEnding (s : Text) : Text :=
  if endsWith "\r\n" s then "\r\n" else if endsWith "\n" s then "\n" else []

/-- The lines of a text where only line feeds end a line, each with its line feed. -/
def feedLines : Text → List Text
  | [] => []
  | c :: r =>
    if c = '\n' then [c] :: feedLines r
    else match feedLines r with
      | [] => [[c]]
      | l :: ls => (c :: l) :: ls

/-- Carriage returns, alone or before a line feed, become line feeds. -/
def plainFeeds : Text → Text
  | [] => []
  | '\r' :: '\n' :: r => '\n' :: plainFeeds r
  | c :: r => (if c = '\r' then '\n' else c) :: plainFeeds r

theorem flatten_lines (s : Text) : (lines s).flatten = s := by
  fun_induction lines s with
  | case1 => rfl
  | case2 r ih => simp [ih]
  | case3 c r _ _ ih => simp [ih]
  | case4 c r _ _ held ih => simpa [held] using ih
  | case5 c r _ _ l ls held ih => simpa [held] using ih

theorem flatten_feedLines (s : Text) : (feedLines s).flatten = s := by
  fun_induction feedLines s with
  | case1 => rfl
  | case2 r ih => simp [ih]
  | case3 c r _ held ih => simpa [held] using ih
  | case4 c r _ l ls held ih => simpa [held] using ih

theorem ne_nil_of_mem_lines {s line : Text} (h : line ∈ lines s) : line ≠ [] := by
  fun_induction lines s with
  | case1 => simp at h
  | case2 r ih => rcases List.mem_cons.1 h with rfl | h <;> simp_all
  | case3 c r _ _ ih => rcases List.mem_cons.1 h with rfl | h <;> simp_all
  | case4 c r _ _ held ih => simp at h; simp [h]
  | case5 c r _ _ l ls held ih => rcases List.mem_cons.1 h with rfl | h <;> simp_all

end Recast.Text
