import MongoCore.Data.Bson

/-!
# Calls to the database driver

The operations that the server's entry points hand to the driver, with the arguments and options
that reach it.  An operation of the server is described by the calls it makes; what a call returns
is chosen by the environment.
-/

namespace MongoCore.Data

structure FindOptions where
  limit : Option ℤ := none
  skip : Option ℕ := none
  sort : Option Document := none
  projection : Option Document := none
  batchSize : Option ℕ := none
  deriving Repr

/-- Which version of a document a find-and-modify returns. -/
inductive ReturnDocument where
  | before
  | after
  deriving DecidableEq, Repr

/-- One operation on a collection, or on its database. -/
inductive DriverOp where
  | find (filter : Document) (options : FindOptions)
  | findOne (filter : Document) (options : FindOptions)
  | countDocuments (filter : Document)
  | aggregate (pipeline : List Document)
  | insertOne (document : Document)
  | insertMany (documents : List Document)
  | updateOne (filter update : Document)
  | updateMany (filter update : Document)
  | replaceOne (filter replacement : Document) (upsert : Bool)
  | deleteOne (filter : Document)
  | deleteMany (filter : Document)
  | findOneAndUpdate (filter update : Document) (returned : ReturnDocument)
  | createCollection
  | createIndex (keys : Document)
  | listDatabases
  | listCollections
  | listIndexes
  | runCommand (command : Document)
  deriving Repr

/-- An operation with the database and collection it is for. -/
structure DriverCall where
  database : String
  collection : String
  op : DriverOp
  deriving Repr

/-- What a successful call returns. -/
inductive DriverReply where
  | documents (documents : List Document)
  | inserted (id : Bson)
  | insertedMany (ids : List Bson)
  | updated (matched modified : ℕ) (upserted : Option Bson)
  | deleted (count : ℕ)
  | document (document : Option Document)
  deriving Repr

def DriverOp.filter? : DriverOp → Option Document
  | .find filter _ | .findOne filter _ | .countDocuments filter
  | .updateOne filter _ | .updateMany filter _ | .replaceOne filter _ _
  | .deleteOne filter | .deleteMany filter | .findOneAndUpdate filter _ _ => some filter
  | _ => none

/-- A stage of the pipeline stores its input in a collection. -/
def storesResult (pipeline : List Document) : Bool :=
  pipeline.any fun stage ↦ stage.any fun (key, _) ↦ key = "$out" || key = "$merge"

/-- Whether the operation changes the database.  A command can do anything. -/
def DriverOp.writes : DriverOp → Bool
  | .find _ _ | .findOne _ _ | .countDocuments _ => false
  | .listDatabases | .listCollections | .listIndexes => false
  | .aggregate pipeline => storesResult pipeline
  | .insertOne _ | .insertMany _ | .updateOne _ _ | .updateMany _ _ | .replaceOne _ _ _ => true
  | .deleteOne _ | .deleteMany _ | .findOneAndUpdate _ _ _ => true
  | .createCollection | .createIndex _ | .runCommand _ => true

end MongoCore.Data
