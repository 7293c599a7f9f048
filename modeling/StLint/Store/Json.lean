import StLint.Log.Json
import StLint.Store.Basic

/-!
# Stored projects as data
-/

namespace StLint.Store

open Json

namespace Project

/-- Keys in order. -/
def keys : List String := ["id", "name", "description", "created_at", "updated_at"]

/-- Writes a project. -/
def toJson (p : Project) : Json :=
  .ofMembers [
    field "id" (.str p.id),
    field "name" (.str p.name),
    field? "description" .str p.description,
    field "created_at" p.createdAt.toJson,
    field "updated_at" p.updatedAt.toJson]

/-- Reads a project. -/
def ofJson? (v : Json) : Option Project := do
  let r ← record? keys v
  return {
    id := ← (r "id").required string?
    name := ← (r "name").required string?
    description := ← (r "description").orDefault none (nullable? string?)
    createdAt := ← (r "created_at").required Timestamp.ofJson?
    updatedAt := ← (r "updated_at").required Timestamp.ofJson? }

end Project

namespace SourceFile

/-- Keys in order. -/
def keys : List String :=
  ["project_id", "file_name", "content", "content_hash", "size", "uploaded_at"]

/-- Writes a file. -/
def toJson (f : SourceFile) : Json :=
  .obj [("project_id", .str f.projectId), ("file_name", .str f.fileName),
    ("content", .str f.content), ("content_hash", .str f.contentHash), ("size", .ofNat f.size),
    ("uploaded_at", f.uploadedAt.toJson)]

/-- Reads a file. -/
def ofJson? (v : Json) : Option SourceFile := do
  let r ← record? keys v
  return {
    projectId := ← (r "project_id").required string?
    fileName := ← (r "file_name").required string?
    content := ← (r "content").required string?
    contentHash := ← (r "content_hash").required string?
    size := ← (r "size").required nat?
    uploadedAt := ← (r "uploaded_at").required Timestamp.ofJson? }

end SourceFile

/-- Writes an answer. -/
def Value.toJson : Value → Json
  | done => .null
  | project p => p.toJson
  | projects ps => .ofList Project.toJson ps
  | file f => f.toJson
  | files fs => .ofList SourceFile.toJson fs
  | sources ss => .ofList (fun (name, content) => .arr [.str name, .str content]) ss

end StLint.Store
