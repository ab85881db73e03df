import Abacus.Command.Run

/-!
# The program

Loads what a command line speaks of from the file system, runs the command on it and carries out what
the command leaves behind.
-/

namespace Abacus

namespace Main

/-- The places that a path passes, from the root on. -/
def placesOf (home : List String) (path : String) : List (List String) :=
  let start := if path.toList.head? = some '/' then [] else home
  let names := (pathNames path.toList).map String.ofList
  let step (place : List String) (name : String) : List String :=
    if name = "" ∨ name = "." then place
    else if name = ".." then place.dropLast
    else place ++ [name]
  (List.range (names.length + 1)).map fun n => (names.take n).foldl step start

/-- The paths that settings speak of. -/
def pathsOf (settings : Settings) : List String :=
  let paths :=
    match settings.task with
    | .emitTree path => [tidyPath path, tidyPath path ++ ".ast.json"]
    | .runTree path | .runFile path => [tidyPath path]
    | .runInput => []
  Command.tracePath :: (settings.output.toList ++ paths)

/-- A place as the file system names it. -/
def placeText (place : List String) : String := "/" ++ String.intercalate "/" place

/-- What the file system has at a place, if anything. -/
def loadEntry (place : List String) : IO (Option (List String × Entry)) := do
  let root ← IO.currentDir
  let path := root / placeText place
  if ← path.isDir then return some (place, .folder)
  else if ← path.pathExists then return some (place, .file (← IO.FS.readBinFile path))
  else return none

/-- The part of the file system that paths speak of. -/
def loadDisk (paths : List String) : IO Disk := do
  let here ← IO.currentDir
  let home := (pathNames here.toString.toList).map String.ofList |>.filter (· != "")
  let places := (paths.flatMap (placesOf home)).eraseDups
  return { home, entries := (← places.mapM loadEntry).reduceOption }

/-- Everything that is left of a stream, after what was read of it. -/
partial def readAll (stream : IO.FS.Stream) (before : ByteArray) : IO ByteArray := do
  let piece ← stream.read 65536
  if piece.isEmpty then return before else readAll stream (before ++ piece)

end Main

end Abacus

open Abacus in
/-- Runs the command on the file system and gives its status. The standard output is strict; on
the error output surrogates are escaped. -/
def main (words : List String) : IO UInt32 := do
  let settings := Settings.ofWords words
  let paths := match settings with
    | .ok settings => Main.pathsOf settings
    | .error _ => []
  let disk ← Main.loadDisk paths
  let input ← match settings with
    | .ok { task := .runInput, .. } => Main.readAll (← IO.getStdin) ByteArray.empty
    | _ => pure ByteArray.empty
  let result := Command.run words disk { input, strict := true }
  for (place, content) in disk.changes result.disk do
    IO.FS.writeBinFile (Main.placeText place) content
  (← IO.getStdout).putStr (result.output.render codeEscape)
  (← IO.getStderr).putStr (result.errors.render codeEscape)
  return result.status.toUInt32
