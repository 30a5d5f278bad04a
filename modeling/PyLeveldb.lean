import PyLeveldb.Exec
import PyLeveldb.Lib.Sorted
import PyLeveldb.Lib.Cursor
import PyLeveldb.Scan
import PyLeveldb.MemStore
import PyLeveldb.RangeScan
import PyLeveldb.Handles
import PyLeveldb.HandleRun
import PyLeveldb.NullPointers
import PyLeveldb.Ready
import PyLeveldb.Lib.Monitor
import PyLeveldb.Gil
import PyLeveldb.Lib.History
import PyLeveldb.Life
import PyLeveldb.Opening
import PyLeveldb.Arguments
import PyLeveldb.Residue
import PyLeveldb.Buffers
import PyLeveldb.Leaks
import PyLeveldb.RangeBounds
import PyLeveldb.Retries
import PyLeveldb.SharedBatch
import PyLeveldb.SharedIter
import PyLeveldb.Deadlock
import PyLeveldb.Lib.SortedMap
import PyLeveldb.Reference
import PyLeveldb.Refinement
import PyLeveldb.Lib.Frame
import PyLeveldb.Unseen
import PyLeveldb.Safety
import PyLeveldb.Snappy.Bits
import PyLeveldb.Snappy.CApi
import PyLeveldb.Snappy.IOVec
import PyLeveldb.Teardown
