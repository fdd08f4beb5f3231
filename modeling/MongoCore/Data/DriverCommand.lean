import MongoCore.Data.Driver

/-!
# Commands with all their options

What the driver sends to the database, with every option that a client of the server can ask for.
An option that is not set has the value that the driver takes by default.

An operation of a pipeline step is such a command with the options that a step sets.
-/

namespace MongoCore.Data

structure FindAndModifyOptions where
  returnDocument : ReturnDocument := .after
  upsert : Bool := false
  sort : Option Document := none
  deriving Repr

/-- A command on a collection, or on its database. -/
inductive DriverCommand where
  | find (filter : Document) (options : FindOptions)
  | findOne (filter : Document) (options : FindOptions)
  | countDocuments (filter : Document)
  | distinct (field : String) (filter : Document)
  | aggregate (pipeline : List Document) (batchSize : Option ℕ)
  | insertOne (document : Document)
  | insertMany (documents : List Document) (ordered : Bool)
  | updateOne (filter update : Document) (upsert : Bool)
  | updateMany (filter update : Document) (upsert : Bool)
  | replaceOne (filter replacement : Document) (upsert : Bool)
  | deleteOne (filter : Document)
  | deleteMany (filter : Document)
  | findOneAndUpdate (filter update : Document) (options : FindAndModifyOptions)
  | createCollection
  | dropCollection
  | createIndex (keys : Document) (name : Option String) (unique sparse : Option Bool)
  | listDatabases
  | listCollections
  | listIndexes
  | runCommand (command : Document)
  deriving Repr

/-- A command with the database and collection it is for. -/
structure DriverRequest where
  database : String
  collection : String
  command : DriverCommand
  deriving Repr

/-- The options that reach the driver; a batch size is never set. -/
def FindOptions.toDriverOptions (options : FindOptions) : FindOptions where
  limit := options.limit
  skip := options.skip
  sort := options.sort
  projection := options.projection

/-- The options of a find without options are the defaults. -/
def driverOptions (options : Option FindOptions) : FindOptions :=
  (options.map (·.toDriverOptions)).getD {}

theorem driverOptions_eq (options : Option FindOptions) :
    driverOptions options =
      { limit := options.bind (·.limit), skip := options.bind (·.skip),
        sort := options.bind (·.sort), projection := options.bind (·.projection) } := by
  cases options <;> rfl

def DriverOp.command : DriverOp → DriverCommand
  | .find filter options => .find filter options
  | .findOne filter options => .findOne filter options
  | .countDocuments filter => .countDocuments filter
  | .aggregate pipeline => .aggregate pipeline none
  | .insertOne document => .insertOne document
  | .insertMany documents => .insertMany documents true
  | .updateOne filter update => .updateOne filter update false
  | .updateMany filter update => .updateMany filter update false
  | .replaceOne filter replacement upsert => .replaceOne filter replacement upsert
  | .deleteOne filter => .deleteOne filter
  | .deleteMany filter => .deleteMany filter
  | .findOneAndUpdate filter update returned =>
      .findOneAndUpdate filter update { returnDocument := returned }
  | .createCollection => .createCollection
  | .createIndex keys => .createIndex keys none none none
  | .listDatabases => .listDatabases
  | .listCollections => .listCollections
  | .listIndexes => .listIndexes
  | .runCommand command => .runCommand command

end MongoCore.Data
