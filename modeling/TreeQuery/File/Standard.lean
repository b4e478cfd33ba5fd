import TreeQuery.File.System

/-!
# The system around a working directory

A working directory lies in a tree with the usual directories, the programs that commands are made
of, and the device that swallows what is written to it.
-/

namespace TreeQuery.File.Standard

def programs : List String :=
  ["[", "basename", "cat", "chmod", "cmp", "cp", "cut", "dash", "diff", "dirname", "echo", "env",
    "expr", "false", "grep", "head", "kill", "ls", "mkdir", "mktemp", "mv", "printf", "pwd", "rm",
    "rmdir", "seq", "sh", "sleep", "sort", "tail", "tee", "test", "timeout", "touch", "tr", "true",
    "uniq", "wc", "xargs"]

def directoryOf (names : List String) (entry : String → Entry) : Entry :=
  .directory (.ofNames (names.map String.toList) fun n => entry (String.ofList n))

def emptyDirectory : Entry := .directory .nil

def programDirectory : Entry := directoryOf programs fun n => .program n.toList

def userNames : List String := ["bin", "include", "lib", "local", "sbin", "share", "src"]

def userDirectory : Entry :=
  directoryOf userNames fun n => if n == "bin" then programDirectory else emptyDirectory

def deviceDirectory : Entry := directoryOf ["null"] fun _ => .sink

def accounts : Entry := .file (.text "root:x:0:0:root:/root:/bin/bash\n".toList)

def configurationDirectory : Entry := directoryOf ["group", "passwd"] fun _ => accounts

def rootNames : List String :=
  ["bin", "boot", "dev", "etc", "home", "lib", "media", "mnt", "opt", "proc", "root", "run", "sbin",
    "srv", "sys", "tmp", "usr", "var"]

def workName : Name := "work".toList

def system : System where
  root := directoryOf rootNames fun n =>
    match n with
    | "bin" => programDirectory
    | "usr" => userDirectory
    | "dev" => deviceDirectory
    | "etc" => configurationDirectory
    | "tmp" => .directory (.cons workName emptyDirectory .nil)
    | _ => emptyDirectory
  here := ["tmp".toList, workName]

end TreeQuery.File.Standard
