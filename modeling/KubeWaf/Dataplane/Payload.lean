import KubeWaf.Dataplane.Attachment
import KubeWaf.DataFiles.Lists
import Mathlib

/-!
# The payload of a plugin configuration

`internal/dataplane/config/compress.go`, and `attachDirectives` and `attachDataFiles` of
`internal/dataplane/config/build.go`: short lists of directives go into the plugin JSON as they
are, long ones as the base64 text of their gzip, and the data files always as base64.
-/

namespace KubeWaf.Dataplane

open Lib
open DataFiles (Bytes)

/-- `compress/gzip`: what the writer at its best compression makes of some bytes, and what the
reader makes of them; `none` is an error. -/
structure Gzip where
  write : Bytes → Option Bytes
  read : Bytes → Option Bytes

def directivesEncodingGzipBase64 : String := "gzip+base64"

def directivesCompressThreshold : Int := 4 * 1024

/-- `DirectivesMaxInflatedBytes`, 32 MiB. -/
def directivesMaxInflatedBytes : ℕ := 32 * 1024 * 1024

/-- `MaxPluginJSONHardFailBytes`, 1.5 MiB. -/
def maxPluginJSONHardFailBytes : ℕ := 1536 * 1024

/-- The directives joined by line feeds, with one at the end. -/
def joinDirectives (directives : List Bytes) : Bytes :=
  let joined := [10].intercalate directives
  if joined ≠ [] ∧ [10].isSuffixOf joined = false then joined ++ [10] else joined

variable (gzip : Gzip)

def compressBytesGzipBase64 (raw : Bytes) : Option Bytes := (gzip.write raw).map Base64.encode

def compressDirectivesGzipBase64 (directives : List Bytes) : Option Bytes :=
  compressBytesGzipBase64 gzip (joinDirectives directives)

/-- The loop of `ShouldCompressDirectives` with `n` bytes counted; `sep` is what a directive adds
besides its own length, nothing for the first one. -/
def reachesThreshold (n sep : ℕ) : List Bytes → Bool
  | [] => false
  | d :: ds =>
    directivesCompressThreshold ≤ ((n + d.length + sep : ℕ) : Int)
      || reachesThreshold (n + d.length + sep) 1 ds

def shouldCompressDirectives (directives : List Bytes) : Bool :=
  if directivesCompressThreshold ≤ 0 then directives ≠ [] else reachesThreshold 0 0 directives

/-- `DecompressDirectivesGzipBase64(encoded)`: the reader is limited to one byte more than is
allowed. -/
def decompressDirectivesGzipBase64 (encoded : Bytes) : Option Bytes := do
  let raw ← Base64.decode encoded
  let body ← gzip.read raw
  let body := body.take (directivesMaxInflatedBytes + 1)
  if directivesMaxInflatedBytes < body.length then none else some body

def attachDirectives (plugin : PluginJSON) (directives : List Bytes) : PluginJSON :=
  if shouldCompressDirectives directives = false then
    { plugin with directives := .plain directives }
  else
    match compressDirectivesGzipBase64 gzip directives with
    | none => { plugin with directives := .plain directives }
    | some encoded =>
      { plugin with
        directivesEncoding := directivesEncodingGzipBase64, directives := .encoded encoded }

/-- The entry of `data_files` for a body. -/
def encodeDataFile (useGzip : Bool) (body : Bytes) : Bytes :=
  if useGzip then (compressBytesGzipBase64 gzip body).getD (Base64.encode body)
  else Base64.encode body

/-- `attachDataFiles(plugin, files, overrideCRS)`, without the statistics. -/
def attachDataFiles (plugin : PluginJSON) (files : List (String × Bytes)) : PluginJSON :=
  if files = [] then plugin
  else
    let useGzip : Bool := 4 * 1024 ≤ (files.map (·.2.length)).sum
    let encCount := files.countP fun f => useGzip && (compressBytesGzipBase64 gzip f.2).isSome
    { plugin with
      dataFiles := files.map fun f => (f.1, encodeDataFile gzip useGzip f.2)
      dataFilesEncoding :=
        if useGzip ∧ 0 < encCount then directivesEncodingGzipBase64 else "base64" }

end KubeWaf.Dataplane
