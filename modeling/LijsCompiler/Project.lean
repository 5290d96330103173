import LijsCompiler.Compile
import LijsCompiler.Configuration

/-!
# Directories of source files

A directory is a list of files with their paths below it.  A file is compiled with the options that the
directory's configuration file sets; a project is all source files of a directory, in the order
of their paths.
-/

namespace LijsCompiler

def sourceExtension : String := "lijs"

namespace SourcePath

def here : String := "."

def above : String := ".."

/-- The steps of a path.  Repeated slashes do not count, nor does a step to the directory itself
that is not the first step.  A slash in front is a step of its own, to the root of all files. -/
def steps (path : String) : List String :=
  match (path.toList.splitOn '/').map String.ofList with
  | [] => []
  | first :: rest =>
    let start := if first == "" && !rest.isEmpty then "/" else first
    (start :: rest.filter (· != here)).filter (· != "")

/-- Where steps lead below a directory, when `place` has been reached, its last name first.  Steps
that leave the directory lead nowhere. -/
def follow? (place : List String) : List String → Option (List String)
  | [] => some place.reverse
  | step :: steps =>
    if step == "/" then none
    else if step == here then follow? place steps
    else if step == above then
      match place with
      | [] => none
      | _ :: outer => follow? outer steps
    else follow? (step :: place) steps

def resolve? (steps : List String) : Option (List String) := follow? [] steps

/-- The part of a file name after its last dot.  A dot in front begins no extension. -/
def extension? (name : String) : Option String :=
  if name == above then none
  else
    let chars := name.toList
    let ext := (chars.reverse.takeWhile (· != '.')).reverse
    if ext.length + 1 < chars.length then some (String.ofList ext) else none

def isSource (path : List String) : Bool :=
  match path.getLast? with
  | none => false
  | some name => extension? name == some sourceExtension

/-- The order of paths: name by name, and a directory before what is in it. -/
def le : List String → List String → Bool
  | [], _ => true
  | _ :: _, [] => false
  | a :: as, b :: bs => if a == b then le as bs else a < b

def render (path : List String) : String := "/".intercalate path

end SourcePath

def isSourceFile (path : String) : Bool := SourcePath.isSource (SourcePath.steps path)

structure Directory where
  /-- The directory's own path, for messages. -/
  name : String
  files : List (List String × ByteArray)

inductive ReadFault where
  | notFound
  | notText
deriving DecidableEq, Repr

def ReadFault.message : ReadFault → String
  | notFound => "No such file or directory (os error 2)"
  | notText => "stream did not contain valid UTF-8"

inductive ProjectError where
  | readConfiguration (path : String) (fault : ReadFault)
  | parseConfiguration (path : String) (e : ConfigurationError)
  | readSource (path : String) (fault : ReadFault)
  | compile (path : String) (e : CompileError)
deriving DecidableEq, Repr

/-- The error in words, the outermost cause first. -/
def ProjectError.chain : ProjectError → List String
  | readConfiguration path fault => ["Failed to read config file: " ++ path, fault.message]
  | parseConfiguration path e => ["Failed to parse config file: " ++ path, e.message]
  | readSource path fault => ["Failed to read source file: " ++ path, fault.message]
  | compile path e => ["Failed to compile " ++ path, e.diagnostic.message]

/-- Gives a path its content: the path keeps its place in the list, or is added at the end. -/
def setContent (path : List String) (content : ByteArray) (files : List (List String × ByteArray)) :
    List (List String × ByteArray) :=
  if (files.lookup path).isSome then
    files.map fun (p, c) => if p == path then (p, content) else (p, c)
  else
    files ++ [(path, content)]

namespace Directory

/-- The directory after a file is written.  It takes the place of a file that is already there, and
a file elsewhere is not seen. -/
def write (d : Directory) (steps : List String) (content : ByteArray) : Directory :=
  match SourcePath.resolve? steps with
  | none => d
  | some path => { d with files := setContent path content d.files }

/-- The directory after the listed files are written in turn.  Paths with the same steps are one
file, written in the place of the first with the content of the last. -/
def writeAll (d : Directory) (files : List (String × ByteArray)) : Directory :=
  let listed := files.foldl (fun l (path, content) => setContent (SourcePath.steps path) content l) []
  listed.foldl (fun d (steps, content) => d.write steps content) d

def readText (d : Directory) (steps : List String) : Except ReadFault String :=
  match (SourcePath.resolve? steps).bind fun path => d.files.lookup path with
  | none => .error .notFound
  | some bytes =>
    match String.fromUTF8? bytes with
    | none => .error .notText
    | some text => .ok text

def pathOf (d : Directory) (name : String) : String := d.name ++ "/" ++ name

/-- The configuration of a directory, which must have one. -/
def configuration (d : Directory) : Except ProjectError Configuration := do
  let path := d.pathOf Configuration.fileName
  let text ← (d.readText [Configuration.fileName]).mapError (.readConfiguration path)
  (Configuration.ofToml text).mapError (.parseConfiguration path)

def configurationOrStandard (d : Directory) : Except ProjectError Configuration :=
  if (d.files.lookup [Configuration.fileName]).isSome then d.configuration else .ok {}

def compileFile (d : Directory) (c : Configuration) (supply : Supply) (name : String) :
    Except ProjectError Lowered := do
  let path := d.pathOf name
  let source ← (d.readText (SourcePath.steps name)).mapError (.readSource path)
  (LijsCompiler.compile c supply source).mapError (.compile path)

def sources (d : Directory) : List (List String) :=
  ((d.files.map Prod.fst).filter SourcePath.isSource).mergeSort SourcePath.le

/-- Compiles every source file, in order, up to the first that fails. -/
def compileAll (d : Directory) (supply : Supply) :
    Except ProjectError (List (String × Lowered)) := do
  let c ← d.configurationOrStandard
  d.sources.mapM fun path => do
    let name := SourcePath.render path
    let source ← (d.readText path).mapError (.readSource name)
    let lowered ← (LijsCompiler.compile c supply source).mapError (.compile name)
    return (name, lowered)

end Directory

end LijsCompiler
