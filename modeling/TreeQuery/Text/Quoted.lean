/-!
# Double-quoted literals

Inside the quotes a backslash takes the next character literally, except that `n` stands for a
line feed and `t` for a tab. Writing escapes the quote, the backslash, the line feed and the tab.
-/

namespace TreeQuery.Text.Quoted

def unescape : Char → Char
  | 'n' => '\n'
  | 't' => '\t'
  | c => c

/-- Reads up to the closing quote: the text and what follows the quote. -/
def decode? : List Char → Option (List Char × List Char)
  | [] => none
  | '"' :: rest => some ([], rest)
  | ['\\'] => none
  | '\\' :: c :: rest => (decode? rest).map fun (text, after) => (unescape c :: text, after)
  | c :: rest => (decode? rest).map fun (text, after) => (c :: text, after)

def escape : Char → List Char
  | '"' => ['\\', '"']
  | '\\' => ['\\', '\\']
  | '\n' => ['\\', 'n']
  | '\t' => ['\\', 't']
  | c => [c]

def body (text : List Char) : List Char := text.flatMap escape

def encode (text : List Char) : List Char := '"' :: body text ++ ['"']

theorem decode?_escape (c : Char) (rest : List Char) :
    decode? (escape c ++ rest) = (decode? rest).map fun (text, after) => (c :: text, after) := by
  unfold escape
  split <;> simp_all [decode?, unescape]

theorem decode?_body (text rest : List Char) :
    decode? (body text ++ '"' :: rest) = some (text, rest) := by
  induction text with
  | nil => simp [body, decode?]
  | cons c cs ih =>
    have : body (c :: cs) ++ '"' :: rest = escape c ++ (body cs ++ '"' :: rest) := by
      simp [body]
    rw [this, decode?_escape, ih]
    rfl

end TreeQuery.Text.Quoted
