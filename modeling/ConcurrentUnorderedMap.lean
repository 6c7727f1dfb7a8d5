import ConcurrentUnorderedMap.State
import ConcurrentUnorderedMap.Step
import ConcurrentUnorderedMap.Scope
import ConcurrentUnorderedMap.Capacity
import ConcurrentUnorderedMap.Exclusion
import ConcurrentUnorderedMap.Construction
import ConcurrentUnorderedMap.Progress
import ConcurrentUnorderedMap.Resize
import ConcurrentUnorderedMap.Insert
import ConcurrentUnorderedMap.Detach
import ConcurrentUnorderedMap.Alloc
import ConcurrentUnorderedMap.Termination
import ConcurrentUnorderedMap.Exception
import ConcurrentUnorderedMap.Iterator
import ConcurrentUnorderedMap.Ownership
import ConcurrentUnorderedMap.Solo
import ConcurrentUnorderedMap.Lookup
import ConcurrentUnorderedMap.Abstract
import ConcurrentUnorderedMap.SlotLock
import ConcurrentUnorderedMap.Erasure
