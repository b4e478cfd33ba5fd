import TreeQuery.File.System

/-!
# Bytes as characters

Programs work on bytes. Here a byte is the character with its number, so that texts of programs
are lists of characters like all others. Names and contents of files are encoded on the way in and
decoded on the way out.
-/

namespace TreeQuery.Shell

def encode (cs : List Char) : List Char :=
  (String.ofList cs).toUTF8.toList.map fun b => Char.ofNat b.toNat

def toBytes (cs : List Char) : List UInt8 := cs.map fun c => c.toNat.toUInt8

def decode? (cs : List Char) : Option (List Char) :=
  (String.fromUTF8? ⟨(toBytes cs).toArray⟩).map String.toList

def toPath (cs : List Char) : File.Path := ⟨(decode? cs).getD cs⟩

def toContents (cs : List Char) : File.Contents :=
  match decode? cs with
  | some text => .text text
  | none => .binary (toBytes cs)

def ofContents : File.Contents → List Char
  | .text cs => encode cs
  | .binary bytes => bytes.map fun b => Char.ofNat b.toNat

def programImage : List Char := ['\x7f', 'E', 'L', 'F', '\x02', '\x01', '\x01', '\x00']

/-- The bytes of a file; `.isDirectory` for what has none. -/
def readBytes (fs : File.System) (path : List Char) : Except File.IoError (List Char) :=
  match fs.entry (toPath path) with
  | .error e => .error e
  | .ok (.directory _) => .error .isDirectory
  | .ok (.file contents) => .ok (ofContents contents)
  | .ok (.program _) => .ok programImage
  | .ok .sink => .ok []

/-- The lines of a text; a line feed at the end opens no further line. -/
def lines (text : List Char) : List (List Char) :=
  match (Text.split '\n' text).reverse with
  | [] :: rest => rest.reverse
  | pieces => pieces.reverse

def unlines (ls : List (List Char)) : List Char := ls.flatMap (· ++ ['\n'])

-- ---------------------------------------------------------------------------
-- What a program does
-- ---------------------------------------------------------------------------

structure Effect where
  status : Nat
  output : List Char
  errors : List Char
  files : File.System
  /-- The time spent asleep, in milliseconds; `none` if it never ends. -/
  millis : Option Nat
  reads : Bool

namespace Effect

def exit (files : File.System) (status : Nat) : Effect := ⟨status, [], [], files, some 0, false⟩

def ofBool (files : File.System) (b : Bool) : Effect := exit files (if b then 0 else 1)

def fail (files : File.System) (status : Nat) (program message : String) : Effect :=
  ⟨status, [], (program ++ ": " ++ message ++ "\n").toList, files, some 0, false⟩

def print (files : File.System) (output : List Char) : Effect :=
  { exit files 0 with output := output }

end Effect

abbrev Program := File.System → List (List Char) → List Char → Effect

def complaint (program : String) (path : List Char) (e : File.IoError) : List Char :=
  (program ++ ": ").toList ++ path ++ (": " ++ e.text ++ "\n").toList

end TreeQuery.Shell
