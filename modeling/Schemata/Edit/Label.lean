/-
  The labels of history entries, one for every kind of edit.
-/

namespace Schemata

/-- What a history entry records. -/
inductive Label where
  | addTable (name : String)
  | deleteTable (name : String)
  | renameTable (old new : String)
  | moveTable (name : String)
  | moveTables (count : Int)
  | changeColor (name : String)
  | updateComment (name : String)
  | addColumn (table column : String)
  | deleteColumn (table column : String)
  | updateColumn (table column : String)
  | reorderColumns (table : String)
  | updateRelationship
  | createEnum (name : String)
  | updateEnum (name : String)
  | deleteEnum (name : String)
  | renameEnum (old new : String)
  | importDocument
  | applyDocument
  | autoArrange
  | addTables (count : Int)
  | clear
deriving DecidableEq, Repr

/-- The text of a label. -/
def Label.text : Label → String
  | addTable name => "Add table: " ++ name
  | deleteTable name => "Delete table: " ++ name
  | renameTable old new => "Rename table: " ++ old ++ " → " ++ new
  | moveTable name => "Move table: " ++ name
  | moveTables count => "Move " ++ toString count ++ " tables"
  | changeColor name => "Change color: " ++ name
  | updateComment name => "Update comment: " ++ name
  | addColumn table column => "Add column: " ++ table ++ "." ++ column
  | deleteColumn table column => "Delete column: " ++ table ++ "." ++ column
  | updateColumn table column => "Update column: " ++ table ++ "." ++ column
  | reorderColumns table => "Reorder columns in " ++ table
  | updateRelationship => "Update relationship"
  | createEnum name => "Create enum: " ++ name
  | updateEnum name => "Update enum: " ++ name
  | deleteEnum name => "Delete enum: " ++ name
  | renameEnum old new => "Rename enum: " ++ old ++ " → " ++ new
  | importDocument => "Import SQL schema"
  | applyDocument => "Apply SQL changes"
  | autoArrange => "Auto arrange tables"
  | addTables count => "Add " ++ toString count ++ " tables"
  | clear => "Clear schema"

end Schemata
